/-! # The prelude

Every schema starts with these definitions: the scalar types of the language, its own directives and
the types that describe a schema. -/

namespace QueryCheck.Schema

/-- The lines of the prelude. -/
def preludeLines : List String :=
  ["",
   "",
   "\"The `Int` scalar type represents non-fractional signed whole numeric values. Int can represent values between -(2^31) and 2^31 - 1.\"",
   "scalar Int",
   "",
   "\"The `Float` scalar type represents signed double-precision fractional values as specified by [IEEE 754](http://en.wikipedia.org/wiki/IEEE_floating_point).\"",
   "scalar Float",
   "",
   "\"The `String`scalar type represents textual data, represented as UTF-8 character sequences. The String type is most often used by GraphQL to represent free-form human-readable text.\"",
   "scalar String",
   "",
   "\"The `Boolean` scalar type represents `true` or `false`.\"",
   "scalar Boolean",
   "",
   "\"\"\"The `ID` scalar type represents a unique identifier, often used to refetch an object or as key for a cache. The ID type appears in a JSON response as a String; however, it is not intended to be human-readable. When expected as an input type, any string (such as \"4\") or integer (such as 4) input value will be accepted as an ID.\"\"\"",
   "scalar ID",
   "",
   "\"The @include directive may be provided for fields, fragment spreads, and inline fragments, and allows for conditional inclusion during execution as described by the if argument.\"",
   "directive @include(if: Boolean!) on FIELD | FRAGMENT_SPREAD | INLINE_FRAGMENT",
   "",
   "\"The @skip directive may be provided for fields, fragment spreads, and inline fragments, and allows for conditional exclusion during execution as described by the if argument.\"",
   "directive @skip(if: Boolean!) on FIELD | FRAGMENT_SPREAD | INLINE_FRAGMENT",
   "",
   "\"The @deprecated built-in directive is used within the type system definition language to indicate deprecated portions of a GraphQL service's schema, such as deprecated fields on a type, arguments on a field, input fields on an input type, or values of an enum type.\"",
   "directive @deprecated(reason: String = \"No longer supported\") on FIELD_DEFINITION | ARGUMENT_DEFINITION | INPUT_FIELD_DEFINITION | ENUM_VALUE",
   "",
   "\"The @specifiedBy built-in directive is used within the type system definition language to provide a scalar specification URL for specifying the behavior of custom scalar types.\"",
   "directive @specifiedBy(url: String!) on SCALAR",
   "",
   "\"The @defer directive may be specified on a fragment spread to imply de-prioritization, that causes the fragment to be omitted in the initial response, and delivered as a subsequent response afterward. A query with @defer directive will cause the request to potentially return multiple responses, where non-deferred data is delivered in the initial response and data deferred delivered in a subsequent response. @include and @skip take precedence over @defer.\"",
   "directive @defer(if: Boolean = true, label: String) on FRAGMENT_SPREAD | INLINE_FRAGMENT",
   "",
   "type __Schema \x7b",
   "  description: String",
   "  types: [__Type!]!",
   "  queryType: __Type!",
   "  mutationType: __Type",
   "  subscriptionType: __Type",
   "  directives: [__Directive!]!",
   "\x7d",
   "",
   "type __Type \x7b",
   "  kind: __TypeKind!",
   "  name: String",
   "  description: String",
   "  # must be non-null for OBJECT and INTERFACE, otherwise null.",
   "  fields(includeDeprecated: Boolean = false): [__Field!]",
   "  # must be non-null for OBJECT and INTERFACE, otherwise null.",
   "  interfaces: [__Type!]",
   "  # must be non-null for INTERFACE and UNION, otherwise null.",
   "  possibleTypes: [__Type!]",
   "  # must be non-null for ENUM, otherwise null.",
   "  enumValues(includeDeprecated: Boolean = false): [__EnumValue!]",
   "  # must be non-null for INPUT_OBJECT, otherwise null.",
   "  inputFields: [__InputValue!]",
   "  # must be non-null for NON_NULL and LIST, otherwise null.",
   "  ofType: __Type",
   "  # may be non-null for custom SCALAR, otherwise null.",
   "  specifiedByURL: String",
   "\x7d",
   "",
   "type __Field \x7b",
   "  name: String!",
   "  description: String",
   "  args: [__InputValue!]!",
   "  type: __Type!",
   "  isDeprecated: Boolean!",
   "  deprecationReason: String",
   "\x7d",
   "",
   "type __InputValue \x7b",
   "  name: String!",
   "  description: String",
   "  type: __Type!",
   "  defaultValue: String",
   "\x7d",
   "",
   "type __EnumValue \x7b",
   "  name: String!",
   "  description: String",
   "  isDeprecated: Boolean!",
   "  deprecationReason: String",
   "\x7d",
   "",
   "enum __TypeKind \x7b",
   "  SCALAR",
   "  OBJECT",
   "  INTERFACE",
   "  UNION",
   "  ENUM",
   "  INPUT_OBJECT",
   "  LIST",
   "  NON_NULL",
   "\x7d",
   "",
   "type __Directive \x7b",
   "  name: String!",
   "  description: String",
   "  locations: [__DirectiveLocation!]!",
   "  args: [__InputValue!]!",
   "  isRepeatable: Boolean!",
   "\x7d",
   "",
   "enum __DirectiveLocation \x7b",
   "  QUERY",
   "  MUTATION",
   "  SUBSCRIPTION",
   "  FIELD",
   "  FRAGMENT_DEFINITION",
   "  FRAGMENT_SPREAD",
   "  INLINE_FRAGMENT",
   "  VARIABLE_DEFINITION",
   "  SCHEMA",
   "  SCALAR",
   "  OBJECT",
   "  FIELD_DEFINITION",
   "  ARGUMENT_DEFINITION",
   "  INTERFACE",
   "  UNION",
   "  ENUM",
   "  ENUM_VALUE",
   "  INPUT_OBJECT",
   "  INPUT_FIELD_DEFINITION",
   "\x7d"]

/-- The text of the prelude. -/
def preludeText : String := String.intercalate "\n" preludeLines

end QueryCheck.Schema
