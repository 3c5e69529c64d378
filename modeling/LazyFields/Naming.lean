import LazyFields.Text

/-!
# Naming rules

The names of generated types tell which of them carry data toward the reader of a source: replies
always do, other messages unless their name begins with the verb of a request.
-/
namespace LazyFields

structure NamingRules where
  messageSuffix : Text
  responseSuffix : Text
  requestVerbs : List Text

namespace NamingRules

def hasMessageSuffix (rules : NamingRules) (name : Text) : Bool :=
  rules.messageSuffix.isSuffixOf name

/-- The name is that of a top-level message whose fields a source may read. -/
def isInbound (rules : NamingRules) (name : Text) : Bool :=
  if name.contains '_' then false
  else if rules.responseSuffix.isSuffixOf name then true
  else rules.hasMessageSuffix name && !rules.requestVerbs.any (·.isPrefixOf name)

end NamingRules
end LazyFields
