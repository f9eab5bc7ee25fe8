import SocialGaming.SyntaxTree
import SocialGaming.Variables

/-!
# The settings of a game

`GameSettings::parse` reads the configuration, the constants and the variables of a game from its
syntax tree into maps of `Variable`s. An expression there is a literal: a map, a list, a quoted
string or a number. Everything else is read as the number 0.

## Design

The parser makes objects in the store and changes none, so a call is on the store alone. A local
`Variable` is an object too. The recursion is bounded by the height of the tree.

A number that is no int is reported by throwing the text of the exception that `std::stoi` throws,
which depends on the library.

## Main definitions

* `stoi` — `std::stoi`
* `recursiveExpressionParser`, `valueMapParser` — expressions
* `configurationParser` — the configuration
* `GameSettings.parse`
-/

namespace SocialGaming

open Std (ExtTreeMap)

/-- What the parser throws: a text, or an exception of the `var` library. -/
inductive SettingsExn where
  | text (what : String)
  | exn (e : Exn)
  deriving DecidableEq, Repr

/-- `varMapType`. -/
abbrev VarMapType : Type := ExtTreeMap String VarPtr compare

/-- `std::get<varMapType>`. -/
def VarType.getVarMap : VarType → Except (Fault SettingsExn) VarMapType
  | .varMap m => .ok m
  | _ => .error (.thrown (.exn .badVariantAccess))

/-- `std::get<listObj>`. -/
def VarType.getList : VarType → Except (Fault SettingsExn) (List VarPtr)
  | .list l => .ok l
  | _ => .error (.thrown (.exn .badVariantAccess))

/-! ### Calls on the store -/

/-- A call of the parser. -/
abbrev Settings (α : Type) : Type := Prog SettingsExn Heap α

namespace Settings

/-- A call of the `var` library. -/
def ofVar {α : Type} (f : Heap → Except (Fault Exn) (α × Heap)) : Settings α := fun h =>
  match f h with
  | .ok (a, h') => .ok a h'
  | .error (.thrown e) => .error (.thrown (.exn e)) h
  | .error (.undefined u) => .error (.undefined u) h
  | .error .diverged => .error .diverged h

/-- A member function is called on the node. -/
def node (n : Option SyntaxNode) : Settings SyntaxNode := Prog.ofExcept (deref n)

/-- `makeVar`. -/
def makeVar (v : VarType) : Settings VarAddr := fun h =>
  .ok (h.makeVariable v).1 (h.makeVariable v).2

/-- `VariableUtils::setValue(map, key, variable)`: the new contents of `map`. -/
def setValue (map : VarType) (key : String) (val : VarAddr) : Settings VarType :=
  ofVar (VariableUtils.setValueVariable map (.string key) val)

/-- `ListObjUtils::push_back`: the new contents of `list`. -/
def pushBack (list val : VarType) : Settings VarType := ofVar (ListObjUtils.pushBack list val)

@[simp] theorem run_node (n : SyntaxNode) (h : Heap) : (node (some n)).run h = .ok n h := rfl

@[simp] theorem run_makeVar (v : VarType) (h : Heap) :
    (makeVar v).run h = .ok (h.makeVariable v).1 (h.makeVariable v).2 := rfl

@[simp] theorem run_setValue (m : VarMapType) (key : String) (p : VarAddr) (h : Heap) :
    (setValue (.varMap m) key p).run h
      = .ok (.varMap (m.insert key (some (h.copyVariable (h.storage p)).1)))
        (h.copyVariable (h.storage p)).2 := rfl

@[simp] theorem run_pushBack (l : List VarPtr) (v : VarType) (h : Heap) :
    (pushBack (.list l) v).run h
      = .ok (.list (l ++ [some (h.makeVariable v).1])) (h.makeVariable v).2 := rfl

end Settings

open Settings (node makeVar setValue pushBack)

/-! ### Numbers and bools -/

/-- The number with these digits. -/
def digitsValue (digits : List Char) : ℕ := digits.foldl (fun n c => 10 * n + (c.toNat - 48)) 0

/-- `std::stoi`: white space, a sign, and as many digits as there are. It throws when there are none
or their number is no int. -/
def stoi (text : List Char) : Option Int32 :=
  let text := text.dropWhile isSpace
  let (negative, rest) := match text with
    | '-' :: rest => (true, rest)
    | '+' :: rest => (false, rest)
    | rest => (false, rest)
  let digits := rest.takeWhile Char.isDigit
  if digits.isEmpty then none
  else
    let n : ℤ := if negative then -digitsValue digits else digitsValue digits
    if Int32.minValue.toInt ≤ n ∧ n ≤ Int32.maxValue.toInt then some (Int32.ofInt n) else none

/-- `GameSettings::parseInt`. -/
def parseInt (intNode : SyntaxNode) : Except (Fault SettingsExn) Int32 :=
  match stoi intNode.sourceRange with
  | some n => .ok n
  | none => .error (.thrown (.text "stoi"))

/-- `GameSettings::parseBool`. -/
def parseBool (intNode : SyntaxNode) : Except (Fault SettingsExn) Bool :=
  if intNode.text = "true" then .ok true
  else if intNode.text = "false" then .ok false
  else .error (.thrown (.text "boolean neither true nor false"))

/-! ### Expressions -/

/-- One entry of `GameSettings::valueMapParser`. -/
def valueMapEntry (recursiveExpressionParser : SyntaxNode → Settings VarAddr) (map : VarType)
    (elementRoot : SyntaxNode) : Settings VarType := do
  let key := (← node (elementRoot.getChildByFieldName "key")).text
  let val ← recursiveExpressionParser (← node (elementRoot.getChildByFieldName "value"))
  setValue map key val

/-- `GameSettings::valueMapParser`, which calls the parser of expressions back. -/
def valueMapParserWith (recursiveExpressionParser : SyntaxNode → Settings VarAddr)
    (n : SyntaxNode) : Settings VarMapType := do
  let mapRoot ← node (n.getNamedChild 0)
  let map ← mapRoot.namedChildren.foldlM (valueMapEntry recursiveExpressionParser) (.varMap ∅)
  Prog.ofExcept map.getVarMap

/-- One element of a list in `GameSettings::recursiveExpressionParser`. -/
def listElement (recursiveExpressionParser : SyntaxNode → Settings VarAddr) (listLiteral : VarType)
    (element : SyntaxNode) : Settings VarType := do
  let val ← recursiveExpressionParser element
  pushBack listLiteral ((← get).value val)

/-- `GameSettings::recursiveExpressionParser`. -/
def recursiveExpressionParser (n : SyntaxNode) : Settings VarAddr := go n.height n
where
  /-- `recursiveExpressionParser`, to a depth. -/
  go : ℕ → SyntaxNode → Settings VarAddr
    | 0, _ => throw .diverged
    | depth + 1, n => do
      let child ← node (n.getNamedChild 0)
      if child.type = "value_map" then makeVar (.varMap (← valueMapParserWith (go depth) n))
      else if child.type = "list_literal" then
        match child.getChildByFieldName "elements" with
        | none => makeVar (.list [])
        | some elementsRoot =>
          let listLiteral ← elementsRoot.namedChildren.foldlM (listElement (go depth)) (.list [])
          makeVar (.list (← Prog.ofExcept listLiteral.getList))
      else if child.type = "quoted_string" then makeVar (.string child.text)
      else if child.type = "number" then makeVar (.int (← Prog.ofExcept (parseInt child)))
      else makeVar (.int 0)

/-- `GameSettings::valueMapParser`. -/
def valueMapParser (n : SyntaxNode) : Settings VarMapType :=
  valueMapParserWith recursiveExpressionParser n

/-! ### The configuration -/

/-- A range, read the same way for the players and for a setup entry. -/
def rangeParser (range : Option SyntaxNode) : Settings VarAddr := do
  let range ← node range
  let lowerRange ← Prog.ofExcept (parseInt (← node (range.getNamedChild 0)))
  let list ← pushBack (.list []) (.int lowerRange)
  let upperRange ← Prog.ofExcept (parseInt (← node (range.getNamedChild 1)))
  let list ← pushBack list (.int upperRange)
  makeVar (.list (← Prog.ofExcept list.getList))

/-- The part of a setup entry that only an integer has. -/
def integerSetup (map2 : VarType) (setup : SyntaxNode) : Settings VarType := do
  let map2 ← setValue map2 "range" (← rangeParser (setup.getNamedChild 2))
  if setup.getNumNamedChildren > 3 then
    let defaultInt ← Prog.ofExcept (parseInt (← node (setup.getNamedChild 3)))
    setValue map2 "default_int" (← makeVar (.int defaultInt))
  else return map2

/-- One setup entry of `GameSettings::configurationParser`. -/
def setupEntry (map : VarType) (setup : SyntaxNode) : Settings VarType := do
  let key := (← node (setup.getChildByFieldName "name")).text
  let kind := (← node (setup.getChildByFieldName "kind")).text
  let map2 ← setValue (.varMap ∅) "kind" (← makeVar (.string kind))
  let prompt := (← node (setup.getChildByFieldName "prompt")).text
  let map2 ← setValue map2 "prompt" (← makeVar (.string prompt))
  let map2 ← if kind = "integer" then integerSetup map2 setup else pure map2
  setValue map key (← makeVar (.varMap (← Prog.ofExcept map2.getVarMap)))

/-- `GameSettings::configurationParser`: the new `setupSettings`. The setup entries are the named
children after the first three. -/
def configurationParser (root : SyntaxNode) : Settings VarMapType := do
  let gameConfig ← node (root.getChildByFieldName "configuration")
  let name := (← node (gameConfig.getNamedChild 0)).text
  let map ← setValue (.varMap ∅) "name" (← makeVar (.string name))
  let map ← setValue map "player_range" (← rangeParser (gameConfig.getNamedChild 1))
  let audience ← Prog.ofExcept (parseBool (← node (gameConfig.getNamedChild 2)))
  let map ← setValue map "audience" (← makeVar (.bool audience))
  let map ← (gameConfig.namedChildren.drop 3).foldlM setupEntry map
  Prog.ofExcept map.getVarMap

/-! ### The parser -/

/-- `class GameSettings`. -/
structure GameSettings where
  setupSettings : VarMapType := ∅
  constants : VarMapType := ∅
  gameVariables : VarMapType := ∅
  perPlayerVariables : VarMapType := ∅
  perAudienceVariables : VarMapType := ∅

/-- A map of values is read, and then stored. -/
def storeMap (x : Settings VarMapType) (store : VarMapType → GameSettings → GameSettings) :
    Prog SettingsExn (GameSettings × Heap) Unit := do
  let m ← Prog.zoom Prod.snd (fun h s => (s.1, h)) x
  modify fun s => (store m s.1, s.2)

/-- `constantsParser`, `variablesParser`, `perPlayerParser` and `perAudienceParser` read the values
under one field. -/
def sectionParser (field : String) (root : SyntaxNode) : Settings VarMapType := do
  valueMapParser (← node (root.getChildByFieldName field))

/-- `GameSettings::constantsParser`. -/
def constantsParser (root : SyntaxNode) : Settings VarMapType := sectionParser "constants" root

/-- `GameSettings::variablesParser`. -/
def variablesParser (root : SyntaxNode) : Settings VarMapType := sectionParser "variables" root

/-- `GameSettings::perPlayerParser`. -/
def perPlayerParser (root : SyntaxNode) : Settings VarMapType := sectionParser "per_player" root

/-- `GameSettings::perAudienceParser`. -/
def perAudienceParser (root : SyntaxNode) : Settings VarMapType :=
  sectionParser "per_audience" root

/-- `GameSettings::parse`. -/
def GameSettings.parse (root : SyntaxNode) : Prog SettingsExn (GameSettings × Heap) Unit := do
  storeMap (configurationParser root) fun m s => { s with setupSettings := m }
  storeMap (constantsParser root) fun m s => { s with constants := m }
  storeMap (variablesParser root) fun m s => { s with gameVariables := m }
  storeMap (perPlayerParser root) fun m s => { s with perPlayerVariables := m }
  storeMap (perAudienceParser root) fun m s => { s with perAudienceVariables := m }

end SocialGaming
