import Mathlib.Data.List.Basic
import Mathlib.Tactic.Common
import QueryCheck.Data.MessagePack

/-! # Reading MessagePack

A reader of MessagePack, as the format describes it, beside the writer. The first byte of a value
tells its sort, and either holds a small number itself or tells how many bytes of a number follow.
The reader gives back what was written in front of any further bytes, whatever the sizes are, as
long as numbers and lengths are in the range of the format and no key of a map is repeated.

* `MessagePack.decode` reads one value and leaves the bytes behind it.
* `MessagePack.readHeader_nat` and its kin: what is read from each header that is written.
* `Value.Distinct`, `Value.InRange`: no repeated keys, and nothing too large, at any depth.
* `Value.decode_toMessagePack`: reading gives back what was written.
* `Value.toMessagePack_append_inj`: so the bytes of a value tell it. -/

namespace QueryCheck.Data

namespace MessagePack

/-! ### The reader -/

/-- What the bytes in front of a value announce: the value itself, the number of bytes of a text, or
how many items or entries follow. -/
inductive Header where
  | null
  | flag (b : Bool)
  | number (i : Int)
  | text (length : Nat)
  | items (count : Nat)
  | entries (count : Nat)
  deriving DecidableEq, Repr

/-- The number that some bytes write, most significant first. -/
def number (bs : List UInt8) : Nat := bs.foldl (fun n b => 256 * n + b.toNat) 0

/-- How many numbers can be written in `width` bytes. -/
def range : (width : Nat) → Nat
  | 0 => 1
  | w + 1 => 256 * range w

/-- A number in two's complement of `width` bytes. -/
def signed (width n : Nat) : Int := if 2 * n < range width then n else n - range width

/-- What a first byte announces on its own. -/
def fixed (b : Nat) : Option Header :=
  if b < 0x80 then some (.number b)
  else if b < 0x90 then some (.entries (b - 0x80))
  else if b < 0xa0 then some (.items (b - 0x90))
  else if b < 0xc0 then some (.text (b - 0xa0))
  else if b = 0xc0 then some .null
  else if b = 0xc2 then some (.flag false)
  else if b = 0xc3 then some (.flag true)
  else if 0xe0 ≤ b then some (.number (b - 0x100))
  else none

/-- How many bytes of a number follow a first byte, and what the number announces. -/
def wide : Nat → Option (Nat × (Nat → Header))
  | 0xcc => some (1, fun n => .number n)
  | 0xcd => some (2, fun n => .number n)
  | 0xce => some (4, fun n => .number n)
  | 0xcf => some (8, fun n => .number n)
  | 0xd0 => some (1, fun n => .number (signed 1 n))
  | 0xd1 => some (2, fun n => .number (signed 2 n))
  | 0xd2 => some (4, fun n => .number (signed 4 n))
  | 0xd3 => some (8, fun n => .number (signed 8 n))
  | 0xd9 => some (1, .text)
  | 0xda => some (2, .text)
  | 0xdb => some (4, .text)
  | 0xdc => some (2, .items)
  | 0xdd => some (4, .items)
  | 0xde => some (2, .entries)
  | 0xdf => some (4, .entries)
  | _ => none

/-- The first `n` bytes, if there are so many, and those behind them. -/
def takeBytes (n : Nat) (bs : List UInt8) : Option (List UInt8 × List UInt8) :=
  if n ≤ bs.length then some (bs.take n, bs.drop n) else none

/-- The header in front of some bytes, and the bytes behind it. -/
def readHeader : List UInt8 → Option (Header × List UInt8)
  | [] => none
  | b :: bs =>
    match fixed b.toNat with
    | some h => some (h, bs)
    | none => do
      let (width, announce) ← wide b.toNat
      let (bytes, bs) ← takeBytes width bs
      some (announce (number bytes), bs)

/-- A text of `n` bytes. -/
def takeText (n : Nat) (bs : List UInt8) : Option (String × List UInt8) := do
  let (bytes, bs) ← takeBytes n bs
  let s ← String.fromUTF8? ⟨bytes.toArray⟩
  some (s, bs)

/-- A reader repeated `n` times. -/
def readMany {α : Type} (item : List UInt8 → Option (α × List UInt8)) :
    Nat → List UInt8 → Option (List α × List UInt8)
  | 0, bs => some ([], bs)
  | n + 1, bs => do
    let (a, bs) ← item bs
    let (as, bs) ← readMany item n bs
    some (a :: as, bs)

/-- An entry of a map; its key is a text. -/
def readEntry (value : List UInt8 → Option (Value × List UInt8)) (bs : List UInt8) :
    Option ((String × Value) × List UInt8) := do
  match ← readHeader bs with
  | (.text n, bs) =>
    let (key, bs) ← takeText n bs
    let (v, bs) ← value bs
    some ((key, v), bs)
  | _ => none

/-- A value that is nested at most `depth` deep. -/
def readValue : (depth : Nat) → List UInt8 → Option (Value × List UInt8)
  | 0, _ => none
  | depth + 1, bs => do
    match ← readHeader bs with
    | (.null, bs) => some (.null, bs)
    | (.flag b, bs) => some (.bool b, bs)
    | (.number i, bs) => some (.int i, bs)
    | (.text n, bs) =>
      let (s, bs) ← takeText n bs
      some (.str s, bs)
    | (.items n, bs) =>
      let (vs, bs) ← readMany (readValue depth) n bs
      some (.list vs, bs)
    | (.entries n, bs) =>
      let (es, bs) ← readMany (readEntry (readValue depth)) n bs
      some (.map es, bs)

/-- The value in front of some bytes, and the bytes behind it. No value is nested deeper than it has
bytes. -/
def decode (bs : List UInt8) : Option (Value × List UInt8) := readValue bs.length bs

/-! ### Numbers of some bytes -/

@[simp] theorem length_bigEndian : ∀ w n : Nat, (bigEndian w n).length = w
  | 0, _ => rfl
  | w + 1, n => by rw [bigEndian, List.length_append, length_bigEndian w, List.length_singleton]

theorem number_append_singleton (bs : List UInt8) (b : UInt8) :
    number (bs ++ [b]) = 256 * number bs + b.toNat := by
  rw [number, List.foldl_append]
  rfl

theorem toNat_ofNat {n : Nat} (h : n < 256) : (UInt8.ofNat n).toNat = n :=
  UInt8.toNat_ofNat_of_lt' h

/-- **The bytes of a number** write it, if it is in their range. -/
theorem number_bigEndian : ∀ {w n : Nat}, n < range w → number (bigEndian w n) = n
  | 0, n, h => by
    have hn : n = 0 := Nat.lt_one_iff.mp h
    rw [hn]
    rfl
  | w + 1, n, h => by
    have hhigh : n / 256 < range w := Nat.div_lt_of_lt_mul h
    have hlow : n % 256 < 256 := Nat.mod_lt n (by decide)
    rw [bigEndian, number_append_singleton, number_bigEndian hhigh, toNat_ofNat hlow]
    omega

theorem takeBytes_append (bs rest : List UInt8) :
    takeBytes bs.length (bs ++ rest) = some (bs, rest) := by
  rw [takeBytes, if_pos (by simp), List.take_left, List.drop_left]

/-! ### Headers -/

theorem readHeader_fixed {n : Nat} {h : Header} (hn : n < 256) (hfixed : fixed n = some h)
    (rest : List UInt8) : readHeader ([UInt8.ofNat n] ++ rest) = some (h, rest) := by
  rw [List.singleton_append, readHeader, toNat_ofNat hn, hfixed]

theorem readHeader_wide {b : UInt8} {w n : Nat} {announce : Nat → Header}
    (hfixed : fixed b.toNat = none) (hwide : wide b.toNat = some (w, announce)) (hn : n < range w)
    (rest : List UInt8) :
    readHeader ((b :: bigEndian w n) ++ rest) = some (announce n, rest) := by
  have htake : takeBytes w (bigEndian w n ++ rest) = some (bigEndian w n, rest) := by
    have := takeBytes_append (bigEndian w n) rest
    rwa [length_bigEndian] at this
  rw [List.cons_append, readHeader, hfixed]
  simp only [hwide, htake, Option.bind_eq_bind, Option.bind_some, number_bigEndian hn]

theorem readHeader_nat {n : Nat} (hn : n < 0x10000000000000000) (rest : List UInt8) :
    readHeader (nat n ++ rest) = some (.number n, rest) := by
  unfold nat
  split_ifs with h7 h8 h16 h32
  · exact readHeader_fixed (by omega) (by rw [fixed, if_pos h7]) rest
  · exact readHeader_wide (b := 0xcc) (w := 1) rfl rfl h8 rest
  · exact readHeader_wide (b := 0xcd) (w := 2) rfl rfl h16 rest
  · exact readHeader_wide (b := 0xce) (w := 4) rfl rfl h32 rest
  · exact readHeader_wide (b := 0xcf) (w := 8) rfl rfl hn rest

/-- Two's complement of a negative number. -/
theorem signed_sub {w m : Nat} (hpos : 0 < m) (hm : 2 * m ≤ range w) :
    signed w (range w - m) = -(m : Int) := by
  unfold signed
  split <;> omega

theorem readHeader_negative {m : Nat} (hpos : 0 < m) (hm : m ≤ 0x8000000000000000)
    (rest : List UInt8) : readHeader (negative m ++ rest) = some (.number (-(m : Int)), rest) := by
  have hwide : ∀ (b : UInt8) (w : Nat), fixed b.toNat = none →
      wide b.toNat = some (w, fun n => .number (signed w n)) → 2 * m ≤ range w →
      readHeader ((b :: bigEndian w (range w - m)) ++ rest) = some (.number (-(m : Int)), rest) := by
    intro b w hfixed hwide hrange
    rw [readHeader_wide hfixed hwide (by omega), signed_sub hpos hrange]
  unfold negative
  split_ifs with h5 h8 h16 h32
  · refine readHeader_fixed (by omega) ?_ rest
    have hb : ((256 - m : Nat) : Int) - 0x100 = -m := by omega
    unfold fixed
    split_ifs <;> first | omega | rw [hb]
  · exact hwide 0xd0 1 rfl rfl (by rw [show range 1 = 0x100 from rfl]; omega)
  · exact hwide 0xd1 2 rfl rfl (by rw [show range 2 = 0x10000 from rfl]; omega)
  · exact hwide 0xd2 4 rfl rfl (by rw [show range 4 = 0x100000000 from rfl]; omega)
  · exact hwide 0xd3 8 rfl rfl (by rw [show range 8 = 0x10000000000000000 from rfl]; omega)

/-- Whether a number has 64 bits. -/
def inSigned (i : Int) : Bool := -0x8000000000000000 ≤ i && i < 0x8000000000000000

theorem readHeader_int {i : Int} (hi : -0x8000000000000000 ≤ i ∧ i < 0x8000000000000000)
    (rest : List UInt8) : readHeader (int i ++ rest) = some (.number i, rest) := by
  cases i with
  | ofNat n => exact readHeader_nat (by have := hi.2; simp at this; omega) rest
  | negSucc n => exact readHeader_negative (Nat.succ_pos n) (by omega) rest

theorem readHeader_listHeader {n : Nat} (hn : n < 0x100000000) (rest : List UInt8) :
    readHeader (listHeader n ++ rest) = some (.items n, rest) := by
  unfold listHeader
  split_ifs with h4 h16
  · refine readHeader_fixed (by omega) ?_ rest
    unfold fixed
    split_ifs <;> first | omega | rw [Nat.add_sub_cancel_left]
  · exact readHeader_wide (w := 2) rfl rfl h16 rest
  · exact readHeader_wide (w := 4) rfl rfl hn rest

theorem readHeader_mapHeader {n : Nat} (hn : n < 0x100000000) (rest : List UInt8) :
    readHeader (mapHeader n ++ rest) = some (.entries n, rest) := by
  unfold mapHeader
  split_ifs with h4 h16
  · refine readHeader_fixed (by omega) ?_ rest
    unfold fixed
    split_ifs <;> first | omega | rw [Nat.add_sub_cancel_left]
  · exact readHeader_wide (w := 2) rfl rfl h16 rest
  · exact readHeader_wide (w := 4) rfl rfl hn rest

/-! ### Texts -/

theorem toList_loop (bs : ByteArray) (i : Nat) (r : List UInt8) :
    ByteArray.toList.loop bs i r = r.reverse ++ bs.data.toList.drop i := by
  have hsize : bs.data.toList.length = bs.size := rfl
  induction hn : bs.size - i generalizing i r with
  | zero =>
    rw [ByteArray.toList.loop, if_neg (by omega), List.drop_eq_nil_of_le (by omega),
      List.append_nil]
  | succ n ih =>
    have hi : i < bs.data.toList.length := by omega
    rw [ByteArray.toList.loop, if_pos (by omega), ih (i + 1) _ (by omega),
      List.drop_eq_getElem_cons hi, List.reverse_cons, List.append_assoc, List.singleton_append]
    have hget : bs.get! i = bs.data.toList[i] := by
      rw [ByteArray.get!, getElem!_pos bs.data i hi]
      rfl
    rw [hget]

theorem toList_eq (bs : ByteArray) : bs.toList = bs.data.toList := toList_loop bs 0 []

theorem length_toUTF8 (s : String) : s.toUTF8.toList.length = s.utf8ByteSize := by
  rw [toList_eq]
  rfl

theorem fromUTF8?_toUTF8 (s : String) : String.fromUTF8? s.toUTF8 = some s := by
  have hvalid : s.toUTF8.IsValidUTF8 := s.isValidUTF8
  rw [String.fromUTF8?, dif_pos hvalid]
  exact congrArg some (String.toByteArray_inj.mp rfl)

theorem takeText_toUTF8 (s : String) (rest : List UInt8) :
    takeText s.utf8ByteSize (s.toUTF8.toList ++ rest) = some (s, rest) := by
  have hbytes : (⟨s.toUTF8.toList.toArray⟩ : ByteArray) = s.toUTF8 := by
    rw [toList_eq]
  rw [takeText, ← length_toUTF8, takeBytes_append]
  simp only [Option.bind_eq_bind, Option.bind_some, hbytes, fromUTF8?_toUTF8]

theorem readHeader_text {s : String} (hs : s.utf8ByteSize < 0x100000000) (rest : List UInt8) :
    readHeader (text s ++ rest) = some (.text s.utf8ByteSize, s.toUTF8.toList ++ rest) := by
  unfold text
  simp only [length_toUTF8, List.append_assoc]
  generalize s.toUTF8.toList ++ rest = rest
  split_ifs with h5 h8 h16
  · refine readHeader_fixed (by omega) ?_ rest
    unfold fixed
    split_ifs <;> first | omega | rw [Nat.add_sub_cancel_left]
  · exact readHeader_wide (w := 1) rfl rfl h8 rest
  · exact readHeader_wide (w := 2) rfl rfl h16 rest
  · exact readHeader_wide (w := 4) rfl rfl hs rest

/-! ### Lists and maps -/

/-- A reader that gives back each of some written things gives back all of them. -/
theorem readMany_flatten {α : Type} {item : List UInt8 → Option (α × List UInt8)}
    {write : α → List UInt8} : ∀ {as : List α},
    (∀ a ∈ as, ∀ rest, item (write a ++ rest) = some (a, rest)) → ∀ rest,
    readMany item as.length ((as.map write).flatten ++ rest) = some (as, rest)
  | [], _, _ => rfl
  | a :: as, h, rest => by
    rw [List.forall_mem_cons] at h
    rw [List.length_cons, readMany, List.map_cons, List.flatten_cons, List.append_assoc, h.1]
    simp only [Option.bind_eq_bind, Option.bind_some, readMany_flatten h.2]

theorem readEntry_append {value : List UInt8 → Option (Value × List UInt8)} {key : String}
    {v : Value} {bytes : List UInt8} (hkey : key.utf8ByteSize < 0x100000000)
    (hv : ∀ rest, value (bytes ++ rest) = some (v, rest)) (rest : List UInt8) :
    readEntry value ((text key ++ bytes) ++ rest) = some ((key, v), rest) := by
  rw [readEntry, List.append_assoc, readHeader_text hkey]
  simp only [Option.bind_eq_bind, Option.bind_some, takeText_toUTF8, hv]

end MessagePack

namespace Value

open MessagePack

/-! ### Values that can be read back -/

mutual

/-- A value and all values it holds, at any depth. -/
def within : Value → List Value
  | list items => list items :: withinItems items
  | map es => map es :: withinEntries es
  | v => [v]

/-- The values within the items of a list. -/
def withinItems : List Value → List Value
  | [] => []
  | v :: vs => within v ++ withinItems vs

/-- The values within the entries of a map. -/
def withinEntries : List (String × Value) → List Value
  | [] => []
  | (_, v) :: es => within v ++ withinEntries es

end

/-- No map within the value repeats a key. -/
def Distinct (v : Value) : Prop := ∀ w ∈ v.within, w.keys.Nodup

/-- Whether a value has a header: numbers have 64 bits, and lengths have 32. -/
def hasHeader : Value → Bool
  | int i => inSigned i
  | str s => s.utf8ByteSize < 0x100000000
  | list items => items.length < 0x100000000
  | map es => es.length < 0x100000000 && es.all fun e => e.1.utf8ByteSize < 0x100000000
  | _ => true

/-- Every value within the value has a header. -/
def InRange (v : Value) : Prop := ∀ w ∈ v.within, w.hasHeader = true

instance (v : Value) : Decidable v.Distinct := inferInstanceAs (Decidable (∀ w ∈ v.within, _))

instance (v : Value) : Decidable v.InRange := inferInstanceAs (Decidable (∀ w ∈ v.within, _))

theorem withinItems_eq_flatMap (vs : List Value) : withinItems vs = vs.flatMap within := by
  induction vs with
  | nil => rfl
  | cons v vs ih => rw [withinItems, ih, List.flatMap_cons]

theorem withinEntries_eq_flatMap (es : List (String × Value)) :
    withinEntries es = (es.map Prod.snd).flatMap within := by
  induction es with
  | nil => rfl
  | cons e es ih => rw [withinEntries, ih, List.map_cons, List.flatMap_cons]

theorem within_eq (v : Value) : v.within = v :: v.parts.flatMap within := by
  cases v with
  | list items => rw [within, withinItems_eq_flatMap, parts]
  | map es => rw [within, withinEntries_eq_flatMap, parts]
  | _ => rfl

/-- What holds of all values within a value holds of it and of all values within its parts. -/
theorem forall_within_iff {P : Value → Prop} {v : Value} :
    (∀ w ∈ v.within, P w) ↔ P v ∧ ∀ p ∈ v.parts, ∀ w ∈ p.within, P w := by
  rw [within_eq, List.forall_mem_cons]
  simp only [List.mem_flatMap, forall_exists_index, and_imp]
  exact and_congr_right fun _ => ⟨fun h p hp w hw => h w p hp hw, fun h w p hp hw => h p hp w hw⟩

/-! ### Written lists and maps -/

theorem toMessagePackItems_eq_map (vs : List Value) :
    toMessagePackItems vs = vs.map toMessagePack := by
  induction vs with
  | nil => rfl
  | cons v vs ih => rw [toMessagePackItems, ih, List.map_cons]

theorem toMessagePackEntries_eq_map (es : List (String × Value)) :
    toMessagePackEntries es = es.map fun e => (e.1, e.2.toMessagePack) := by
  induction es with
  | nil => rfl
  | cons e es ih => rw [toMessagePackEntries, ih, List.map_cons]

/-- What is found first under a key that is not repeated is the value written there. -/
theorem firstBytes_of_mem : ∀ {es : List (String × List UInt8)}, (es.map Prod.fst).Nodup →
    ∀ e ∈ es, firstBytes e.1 es = e.2
  | [], _, _, he => nomatch he
  | e' :: es, hkeys, e, he => by
    rw [List.map_cons, List.nodup_cons] at hkeys
    rcases List.mem_cons.mp he with rfl | he
    · simp [firstBytes]
    · have hne : e'.1 ≠ e.1 := fun h => hkeys.1 (h ▸ List.mem_map_of_mem he)
      rw [firstBytes, List.find?_cons_of_neg (by simpa using hne)]
      exact firstBytes_of_mem hkeys.2 e he

theorem toMessagePack_list (vs : List Value) :
    (list vs).toMessagePack = listHeader vs.length ++ (vs.map toMessagePack).flatten := by
  rw [toMessagePack, toMessagePackItems_eq_map, List.length_map]

theorem toMessagePack_map {es : List (String × Value)} (hkeys : (map es).keys.Nodup) :
    (map es).toMessagePack =
      mapHeader es.length ++ (es.map fun e => text e.1 ++ e.2.toMessagePack).flatten := by
  have hentries : ((toMessagePackEntries es).map Prod.fst).Nodup := by
    rw [toMessagePackEntries_eq_map, List.map_map]
    exact hkeys
  have hfirst := firstBytes_of_mem hentries
  rw [toMessagePack, List.flatMap_congr fun e he => by rw [hfirst e he],
    toMessagePackEntries_eq_map, List.length_map, List.flatMap_map, List.flatMap_def]

/-! ### Reading back -/

theorem listHeader_ne_nil (n : Nat) : listHeader n ≠ [] := by
  unfold listHeader
  split_ifs <;> simp

theorem mapHeader_ne_nil (n : Nat) : mapHeader n ≠ [] := by
  unfold mapHeader
  split_ifs <;> simp

theorem toMessagePack_ne_nil (v : Value) : v.toMessagePack ≠ [] := by
  cases v with
  | null => simp [toMessagePack]
  | bool b => simp [toMessagePack]
  | int i =>
    cases i <;> simp only [toMessagePack, MessagePack.int, nat, negative] <;> split_ifs <;> simp
  | str s =>
    simp only [toMessagePack, text]
    split_ifs <;> simp
  | list items => simp [toMessagePack, listHeader_ne_nil]
  | map es => simp [toMessagePack, mapHeader_ne_nil]

/-- What is written behind a header leaves a level to each of its parts. -/
theorem length_part_le {header part : List UInt8} {parts : List (List UInt8)} {depth : Nat}
    (hheader : header ≠ []) (hpart : part ∈ parts)
    (h : (header ++ parts.flatten).length ≤ depth + 1) : part.length ≤ depth := by
  have hpos : 0 < header.length := List.length_pos_of_ne_nil hheader
  have hle : part.length ≤ parts.flatten.length :=
    (List.sublist_flatten_of_mem hpart).length_le
  rw [List.length_append] at h
  omega

/-- **What was written is read back** in front of any further bytes, with as many levels as there
are bytes. -/
theorem readValue_toMessagePack (v : Value) : v.Distinct → v.InRange → ∀ depth rest,
    v.toMessagePack.length ≤ depth → readValue depth (v.toMessagePack ++ rest) = some (v, rest) := by
  induction v using induct with
  | step v ih =>
    intro hdistinct hrange depth rest hdepth
    obtain ⟨hkeys, hdistinct⟩ := forall_within_iff.mp hdistinct
    obtain ⟨hheader, hrange⟩ := forall_within_iff.mp hrange
    obtain ⟨depth, rfl⟩ : ∃ d, depth = d + 1 :=
      Nat.exists_eq_succ_of_ne_zero
        (by have := List.length_pos_of_ne_nil v.toMessagePack_ne_nil; omega)
    have hpart : ∀ p ∈ v.parts, p.toMessagePack.length ≤ depth → ∀ rest,
        readValue depth (p.toMessagePack ++ rest) = some (p, rest) := fun p hp hle rest =>
      ih p hp (hdistinct p hp) (hrange p hp) depth rest hle
    cases v with
    | null => rfl
    | bool b => cases b <;> rfl
    | int i =>
      have hi : -0x8000000000000000 ≤ i ∧ i < 0x8000000000000000 := by
        simpa [hasHeader, inSigned] using hheader
      rw [toMessagePack, readValue, readHeader_int hi]
      rfl
    | str s =>
      rw [toMessagePack, readValue, readHeader_text (by simpa [hasHeader] using hheader)]
      simp only [Option.bind_eq_bind, Option.bind_some, takeText_toUTF8]
    | list items =>
      rw [toMessagePack_list] at hdepth ⊢
      have hitems : ∀ v ∈ items, ∀ rest,
          readValue depth (v.toMessagePack ++ rest) = some (v, rest) := fun v hv =>
        hpart v hv (length_part_le (listHeader_ne_nil _) (List.mem_map_of_mem hv) hdepth)
      rw [readValue, List.append_assoc, readHeader_listHeader (by simpa [hasHeader] using hheader)]
      simp only [Option.bind_eq_bind, Option.bind_some, readMany_flatten hitems]
    | map es =>
      rw [toMessagePack_map hkeys] at hdepth ⊢
      obtain ⟨hlength, hkey⟩ : es.length < 0x100000000 ∧
          ∀ e ∈ es, e.1.utf8ByteSize < 0x100000000 := by simpa [hasHeader] using hheader
      have hentries : ∀ e ∈ es, ∀ rest, readEntry (readValue depth)
          ((text e.1 ++ e.2.toMessagePack) ++ rest) = some (e, rest) := by
        intro e he
        have hle := length_part_le (mapHeader_ne_nil _) (List.mem_map_of_mem he) hdepth
        rw [List.length_append] at hle
        exact readEntry_append (hkey e he) (hpart e.2 (List.mem_map_of_mem he) (by omega))
      rw [readValue, List.append_assoc, readHeader_mapHeader hlength]
      simp only [Option.bind_eq_bind, Option.bind_some, readMany_flatten hentries]

/-- **Reading gives back what was written** and leaves the further bytes, when no key is repeated
and nothing is too large. -/
theorem decode_toMessagePack {v : Value} (hdistinct : v.Distinct) (hrange : v.InRange)
    (rest : List UInt8) : decode (v.toMessagePack ++ rest) = some (v, rest) :=
  readValue_toMessagePack v hdistinct hrange _ rest (by rw [List.length_append]; omega)

/-- So the bytes of a value tell it. -/
theorem toMessagePack_append_inj {v w : Value} (hv : v.Distinct ∧ v.InRange)
    (hw : w.Distinct ∧ w.InRange) {rest rest' : List UInt8}
    (h : v.toMessagePack ++ rest = w.toMessagePack ++ rest') : v = w ∧ rest = rest' := by
  have hread := decode_toMessagePack hv.1 hv.2 rest
  rw [h, decode_toMessagePack hw.1 hw.2 rest', Option.some.injEq, Prod.mk.injEq] at hread
  exact ⟨hread.1.symm, hread.2.symm⟩

end Value

end QueryCheck.Data
