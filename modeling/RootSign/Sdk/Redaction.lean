import RootSign.Python.Dumps
import RootSign.Python.Runtime

namespace RootSign

open RootSign.Python

/-!
# Redaction (`rootsign/sdk/redaction.py`)

A copy of a payload in which the values that match a rule are replaced.  A rule is a regular
expression for the fields of one name, or for one dotted path.

* `RedactionConfig.new` — bare names are leaf rules, dotted ones and those of path mode are path
  rules;
* `RedactionConfig.matchedRule` — the rule of a path;
* `RedactionConfig.redact` — the walk, which fails closed past its depth limit.
-/

/-- `REDACTED_PLACEHOLDER`. -/
def redactedPlaceholder : Json := .str "[REDACTED]"

/-- `MAX_REDACTION_DEPTH`. -/
def maxRedactionDepth : ℕ := 5

/-- Whether `str(n)` raises `ValueError` under the interpreter's limit; zero is no limit. -/
def tooManyDigits (max_digits : ℕ) (n : ℤ) : Bool :=
  max_digits != 0 && decide (max_digits < (Nat.toDigits 10 n.natAbs).length)

/-- A rule for a field; the regular expression is what `search` finds a match in. -/
abbrev RedactionRule := JStr × (JStr → Bool)

/-- `match_mode`. -/
inductive MatchMode where
  | leaf
  | path
deriving DecidableEq

/-- `RedactionConfig`. -/
structure RedactionConfig where
  leaf_rules : List RedactionRule
  path_rules : List RedactionRule

/-- The code unit of `.`. -/
def dot : CodeUnit := ⟨0x2E, by decide⟩

namespace RedactionConfig

/-- `RedactionConfig(rules, match_mode=…)`. -/
def new (rules : List RedactionRule) (match_mode : MatchMode) : RedactionConfig where
  leaf_rules := rules.filter fun r => !(match_mode == .path || r.1.units.contains dot)
  path_rules := rules.filter fun r => match_mode == .path || r.1.units.contains dot

/-- `_has_rules`. -/
def hasRules (cfg : RedactionConfig) : Bool :=
  !cfg.leaf_rules.isEmpty || !cfg.path_rules.isEmpty

/-- `path.rsplit(".", 1)[-1]`. -/
def leafOf (path : JStr) : JStr := ⟨(path.units.reverse.takeWhile fun u => u != dot).reverse⟩

/-- `_matched_rule`: a path rule wins. -/
def matchedRule (cfg : RedactionConfig) (path : JStr) : Option (JStr → Bool) :=
  (cfg.path_rules.lookup path).or (cfg.leaf_rules.lookup (leafOf path))

/-- `f"{path}.{k}" if path else k`. -/
def fullPath (path k : JStr) : JStr :=
  if path.units.isEmpty then k else path ++ "." ++ k

/-- The text of a value that is no container and not `None`, or nothing where `str` raises. -/
def candidate (rt : Runtime) (max_digits : ℕ) : Json → Option JStr
  | .int n => if tooManyDigits max_digits n then none else some (rt.pyStr (.int n))
  | v => some (rt.pyStr v)

/-- A value that is no container and not `None`. -/
def redactLeaf (rt : Runtime) (max_digits : ℕ) (cfg : RedactionConfig) (path : JStr) (v : Json) :
    Json :=
  match cfg.matchedRule path with
  | none => v
  | some search =>
    match candidate rt max_digits v with
    | none => redactedPlaceholder
    | some text => if search text then redactedPlaceholder else v

mutual

/-- `_redact_value`. -/
def redactValue (rt : Runtime) (max_digits : ℕ) (cfg : RedactionConfig) (path : JStr) :
    Json → ℕ → Json
  | .null, depth => if maxRedactionDepth < depth then redactedPlaceholder else .null
  | .arr items, depth =>
    if maxRedactionDepth < depth then redactedPlaceholder
    else .arr (redactItems rt max_digits cfg path items (depth + 1))
  | .obj fields, depth =>
    if maxRedactionDepth < depth then redactedPlaceholder
    else .obj (redactFields rt max_digits cfg path fields (depth + 1))
  | v, depth =>
    if maxRedactionDepth < depth then redactedPlaceholder
    else redactLeaf rt max_digits cfg path v

/-- The items of a list, which keep its path. -/
def redactItems (rt : Runtime) (max_digits : ℕ) (cfg : RedactionConfig) (path : JStr) :
    List Json → ℕ → List Json
  | [], _ => []
  | item :: rest, depth =>
    redactValue rt max_digits cfg path item depth :: redactItems rt max_digits cfg path rest depth

/-- The fields of a dict, each under its own path. -/
def redactFields (rt : Runtime) (max_digits : ℕ) (cfg : RedactionConfig) (path : JStr) :
    List (JStr × Json) → ℕ → List (JStr × Json)
  | [], _ => []
  | (k, v) :: rest, depth =>
    (k, redactValue rt max_digits cfg (fullPath path k) v depth) ::
      redactFields rt max_digits cfg path rest depth

end

/-- `redact`. -/
def redact (rt : Runtime) (max_digits : ℕ) (cfg : RedactionConfig) : Json → Json
  | .obj fields =>
    if cfg.hasRules then .obj (redactFields rt max_digits cfg "" fields 1) else .obj fields
  | payload => payload

end RedactionConfig

end RootSign
