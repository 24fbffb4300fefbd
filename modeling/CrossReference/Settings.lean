import CrossReference.Scope.Resolution

/-!
# Search settings

The tunable limits and word lists of a search, with their defaults. Function names are kept in lower
case.
-/

namespace CrossReference

/-- The tunables of a search. -/
structure Settings where
  /-- Lines before and after a usage in its window. -/
  contextRadius : Nat := 2
  /-- Assignments through which a value is followed. -/
  hopLimit : Nat := 3
  /-- The functions of the language, in lower case. -/
  builtinFunctions : List String :=
    ["array_filter", "array_key_exists", "array_keys", "array_map", "array_merge", "array_values",
     "count", "explode", "implode", "in_array", "is_array", "is_string", "json_decode",
     "json_encode", "sprintf", "str_contains", "str_replace", "strlen", "strtolower", "strtoupper",
     "substr", "trim"]
  /-- The constants of the language. -/
  builtinConstants : List String :=
    ["PHP_EOL", "PHP_INT_MAX", "PHP_INT_MIN", "PHP_VERSION", "E_ALL", "E_ERROR", "E_WARNING",
     "DIRECTORY_SEPARATOR", "JSON_THROW_ON_ERROR", "SORT_STRING"]
  /-- Functions whose arguments name functions and members, in lower case. -/
  indirectCalls : List String :=
    ["call_user_func", "call_user_func_array", "forward_static_call", "forward_static_call_array",
     "is_callable", "method_exists", "property_exists", "constant"]
  /-- Whether candidate files are looked for again without case when none was found. -/
  caseFallback : Bool := true
  /-- Larger files are skipped. -/
  maxFileBytes : Nat := 8388608
  /-- Further usages of a file are dropped. -/
  maxUsagesPerFile : Nat := 10000
  /-- How many ancestors of a type are listed. -/
  maxAncestors : Nat := 256
  /-- Whether files may be searched side by side; the answer is the same. -/
  inParallel : Bool := true
deriving DecidableEq, Inhabited

/-- Why settings are unusable. -/
inductive SettingsError where
  | noHops
  | noUsages
  | noAncestors
deriving DecidableEq, Inhabited

/-- What a user is told about unusable settings. -/
def SettingsError.message : SettingsError → String
  | noHops => "trace_hop_limit must be at least 1"
  | noUsages => "max_usages_per_file must be at least 1"
  | noAncestors => "max_ancestor_depth must be at least 1"

namespace Settings

/-- The first limit that is zero and must not be. -/
def problem? (s : Settings) : Option SettingsError :=
  if s.hopLimit = 0 then some .noHops
  else if s.maxUsagesPerFile = 0 then some .noUsages
  else if s.maxAncestors = 0 then some .noAncestors
  else none

/-- What names are resolved against besides the declarations. -/
def builtins (s : Settings) : Builtins where
  functions := s.builtinFunctions
  constants := s.builtinConstants

/-- Whether the arguments of the function `name` name functions and members. -/
def isIndirectCall (s : Settings) (name : String) : Bool :=
  s.indirectCalls.contains (Name.key name)

/-- Sets the functions of the language. -/
def withBuiltinFunctions (s : Settings) (names : List String) : Settings :=
  { s with builtinFunctions := names.map Text.foldCase }

/-- Sets the functions whose arguments name functions and members. -/
def withIndirectCalls (s : Settings) (names : List String) : Settings :=
  { s with indirectCalls := names.map Text.foldCase }

/-- A list of words without order and repetition, written in increasing order. -/
def sortedWords (words : List String) : List String :=
  (words.mergeSort fun a b => !decide (b < a)).eraseDups

/-- Whether two settings agree, the word lists as sets. -/
def agrees (s t : Settings) : Bool :=
  { s with
    builtinFunctions := sortedWords s.builtinFunctions
    builtinConstants := sortedWords s.builtinConstants
    indirectCalls := sortedWords s.indirectCalls } =
  { t with
    builtinFunctions := sortedWords t.builtinFunctions
    builtinConstants := sortedWords t.builtinConstants
    indirectCalls := sortedWords t.indirectCalls }

end Settings
end CrossReference
