import SocialGaming.SettingsLiterals

/-!
# The configuration of a game

The name of the game, the range of the number of players and whether there is an audience are put
into the same map as the setup entries, under fixed keys and before them. An entry that has one of
these keys for its name is put in the place of what was there.

## Main definitions

* `SetupEntry`, `Configuration` — what a configuration declares, and the nodes that declare it
* `Configuration.settings` — the keys and values in the order they are put into the map

## Main results

* `configurationParser_shows` — what the map holds
* `configuration_kept_iff` — it holds everything that is declared if and only if no entry has one of
  the fixed keys for its name
-/

namespace SocialGaming

open Std (ExtTreeMap)
open Settings (node makeVar setValue pushBack)

/-! ### What is declared -/

/-- The node of a range: two numbers that are ints. -/
structure IsRange (n : SyntaxNode) (lower upper : Int32) : Prop where
  lower : ∃ c, n.getNamedChild 0 = some c ∧ stoi c.sourceRange = some lower
  upper : ∃ c, n.getNamedChild 1 = some c ∧ stoi c.sourceRange = some upper

/-- A setup entry. Only an integer has a range and may have a default. -/
structure SetupEntry where
  name : String
  kind : String
  prompt : String
  lower : Int32 := 0
  upper : Int32 := 0
  defaultInt : Option Int32 := none

/-- A configuration. -/
structure Configuration where
  name : String
  lower : Int32
  upper : Int32
  audience : Bool
  setups : List SetupEntry

/-- The node declares the entry. -/
structure SetupEntry.Represents (entry : SetupEntry) (n : SyntaxNode) : Prop where
  name : ∃ c, n.getChildByFieldName "name" = some c ∧ c.text = entry.name
  kind : ∃ c, n.getChildByFieldName "kind" = some c ∧ c.text = entry.kind
  prompt : ∃ c, n.getChildByFieldName "prompt" = some c ∧ c.text = entry.prompt
  range : entry.kind = "integer" →
    ∃ c, n.getNamedChild 2 = some c ∧ IsRange c entry.lower entry.upper
  noDefault : entry.kind = "integer" → entry.defaultInt = none → n.getNumNamedChildren ≤ 3
  default : entry.kind = "integer" → ∀ d, entry.defaultInt = some d →
    ∃ c, n.getNamedChild 3 = some c ∧ stoi c.sourceRange = some d

/-- The tree declares the configuration. -/
structure Configuration.Represents (config : Configuration) (root : SyntaxNode) : Prop where
  children : ∃ gameConfig nameNode rangeNode audienceNode setups,
    root.getChildByFieldName "configuration" = some gameConfig ∧
    gameConfig.namedChildren = nameNode :: rangeNode :: audienceNode :: setups ∧
    nameNode.text = config.name ∧ IsRange rangeNode config.lower config.upper ∧
    audienceNode.text = (if config.audience then "true" else "false") ∧
    List.Forall₂ SetupEntry.Represents config.setups setups

/-- The value of a range. -/
def rangeContent (lower upper : Int32) : Content := .list [.leaf (.int lower), .leaf (.int upper)]

/-- The keys and values of a setup entry. -/
def SetupEntry.settings (entry : SetupEntry) : List (String × Content) :=
  [("kind", .leaf (.string entry.kind)), ("prompt", .leaf (.string entry.prompt))]
    ++ if entry.kind = "integer" then ("range", rangeContent entry.lower entry.upper)
        :: (entry.defaultInt.map fun d => ("default_int", .leaf (.int d))).toList
      else []

/-- The map with these keys and values. Of two values for a key the last counts. -/
def mapContent (settings : List (String × Content)) : Content :=
  .map fun k => settings.reverse.lookup k

/-- The keys and values of a configuration. -/
def Configuration.settings (config : Configuration) : List (String × Content) :=
  [("name", .leaf (.string config.name)), ("player_range", rangeContent config.lower config.upper),
    ("audience", .leaf (.bool config.audience))]
    ++ config.setups.map fun entry => (entry.name, mapContent entry.settings)

/-! ### What is made -/

section

variable {h : Heap} {m : VarMapType} {es : List (String × Content)} {t : Content}

theorem shows_mapContent_nil (h : Heap) : Shows h (mapContent []) (.varMap ∅) := shows_empty

/-- A value is put into a map. -/
theorem exists_run_setValue {p : VarAddr} {v : VarType} (hm : Shows h (mapContent es) (.varMap m))
    (hp : h.Holds p v) (hv : Shows h t v) (key : String) :
    ∃ m' h', (setValue (.varMap m) key p).run h = .ok (.varMap m') h' ∧ h.Extends h' ∧
      Shows h' (mapContent (es ++ [(key, t)])) (.varMap m') := by
  have hext := h.extends_copyVariable (h.storage p)
  refine ⟨_, _, Settings.run_setValue m key p h, hext, ?_⟩
  rw [mapContent, lookup_append]
  exact hm.insert hext hp.copyVariable (hv.of_extends hext) key

/-- The same with a new `Variable`, and what is done after it. -/
theorem exists_run_setValue_makeVar {v : VarType} (hm : Shows h (mapContent es) (.varMap m))
    (hv : Shows h t v) (key : String) :
    ∃ m' h', (do setValue (.varMap m) key (← makeVar v)).run h = .ok (.varMap m') h' ∧
      (∀ {α : Type} (f : VarType → Settings α),
        (do f (← setValue (.varMap m) key (← makeVar v))).run h = (f (.varMap m')).run h') ∧
      h.Extends h' ∧ Shows h' (mapContent (es ++ [(key, t)])) (.varMap m') := by
  have hext := h.extends_makeVariable v
  obtain ⟨m', h', hrun, hext', hm'⟩ := exists_run_setValue (hm.of_extends hext)
    (h.holds_makeVariable v) (hv.of_extends hext) key
  refine ⟨m', h', ?_, fun f => ?_, hext.trans hext', hm'⟩
  · rw [run_bind_of_ok (Settings.run_makeVar v h), hrun]
  · rw [run_bind_of_ok (Settings.run_makeVar v h), run_bind_of_ok hrun]

theorem parseInt_eq {c : SyntaxNode} {k : Int32} (hc : stoi c.sourceRange = some k) :
    parseInt c = .ok k := by
  rw [parseInt, hc]

theorem rangeParser_eq {n a b : SyntaxNode} {lower upper : Int32} (ha : n.getNamedChild 0 = some a)
    (hlower : stoi a.sourceRange = some lower) (hb : n.getNamedChild 1 = some b)
    (hupper : stoi b.sourceRange = some upper) : rangeParser (some n) = (do
      let list ← pushBack (.list []) (.int lower)
      let list ← pushBack list (.int upper)
      makeVar (.list (← Prog.ofExcept list.getList))) := by
  simp only [rangeParser, node, deref_some, Prog.ofExcept_ok, pure_bind, ha, hb,
    parseInt_eq hlower, parseInt_eq hupper]

/-- A range is read. -/
theorem exists_run_rangeParser {n : SyntaxNode} {lower upper : Int32} (hn : IsRange n lower upper)
    (h : Heap) :
    ∃ p h' v, (rangeParser (some n)).run h = .ok p h' ∧ h.Extends h' ∧ h'.Holds p v ∧
      Shows h' (rangeContent lower upper) v := by
  obtain ⟨⟨a, ha, hlower⟩, b, hb, hupper⟩ := hn
  obtain ⟨q, h₁, hq⟩ : ∃ q h₁, h.makeVariable (.int lower) = (q, h₁) := ⟨_, _, rfl⟩
  obtain ⟨r, h₂, hr⟩ : ∃ r h₂, h₁.makeVariable (.int upper) = (r, h₂) := ⟨_, _, rfl⟩
  obtain ⟨p, h₃, hp⟩ : ∃ p h₃, h₂.makeVariable (.list [some q, some r]) = (p, h₃) := ⟨_, _, rfl⟩
  have hnew := h.holds_makeVariable (.int lower)
  have hnew' := h₁.holds_makeVariable (.int upper)
  have hnew'' := h₂.holds_makeVariable (.list [some q, some r])
  have hext := h.extends_makeVariable (.int lower)
  have hext' := h₁.extends_makeVariable (.int upper)
  have hext'' := h₂.extends_makeVariable (.list [some q, some r])
  rw [hq] at hnew hext
  rw [hr] at hnew' hext'
  rw [hp] at hnew'' hext''
  have hlist : Shows h₂ (rangeContent lower upper) (.list [some q, some r]) :=
    (shows_nil.append hext hnew (.int lower)).append hext' hnew' (.int upper)
  refine ⟨p, h₃, _, ?_, (hext.trans hext').trans hext'', hnew'', hlist.of_extends hext''⟩
  have hfirst : (pushBack (.list []) (.int lower)).run h = .ok (.list [some q]) h₁ := by
    rw [Settings.run_pushBack, hq, List.nil_append]
  have hsecond : (pushBack (.list [some q]) (.int upper)).run h₁
      = .ok (.list [some q, some r]) h₂ := by
    rw [Settings.run_pushBack, hr, List.singleton_append]
  rw [rangeParser_eq ha hlower hb hupper, run_bind_of_ok hfirst, run_bind_of_ok hsecond]
  show (makeVar (.list [some q, some r])).run h₂ = _
  rw [Settings.run_makeVar, hp]

/-- What is put into the map of an integer. -/
theorem exists_run_integerSetup {entry : SetupEntry} {n : SyntaxNode} (hn : entry.Represents n)
    (hkind : entry.kind = "integer") (hm : Shows h (mapContent es) (.varMap m)) :
    ∃ m' h', (integerSetup (.varMap m) n).run h = .ok (.varMap m') h' ∧ h.Extends h' ∧
      Shows h' (mapContent (es ++ ("range", rangeContent entry.lower entry.upper)
        :: (entry.defaultInt.map fun d => ("default_int", .leaf (.int d))).toList))
        (.varMap m') := by
  obtain ⟨c, hc, hrange⟩ := hn.range hkind
  obtain ⟨p, h₁, v, hrun, hext, hp, hv⟩ := exists_run_rangeParser hrange h
  obtain ⟨m₁, h₂, hset, hext', hm₁⟩ :=
    exists_run_setValue (hm.of_extends hext) hp hv "range"
  rw [integerSetup, hc, run_bind_of_ok hrun, run_bind_of_ok hset]
  rcases hd : entry.defaultInt with _ | d
  · rw [if_neg (not_lt.mpr (hn.noDefault hkind hd))]
    exact ⟨m₁, h₂, rfl, hext.trans hext', hm₁⟩
  · obtain ⟨c', hc', hdefault⟩ := hn.default hkind d hd
    obtain ⟨m₂, h₃, hset', -, hext'', hm₂⟩ :=
      exists_run_setValue_makeVar hm₁ (.int d) "default_int"
    have hcount : n.getNumNamedChildren > 3 := (List.getElem?_eq_some_iff.mp hc').1
    rw [if_pos hcount, hc', node, deref_some, Prog.ofExcept_ok, pure_bind, parseInt_eq hdefault,
      Prog.ofExcept_ok, pure_bind]
    exact ⟨m₂, h₃, hset', (hext.trans hext').trans hext'', by simpa using hm₂⟩

/-- One setup entry. -/
theorem exists_run_setupEntry {entry : SetupEntry} {n : SyntaxNode} (hn : entry.Represents n)
    (hm : Shows h (mapContent es) (.varMap m)) :
    ∃ m' h', (setupEntry (.varMap m) n).run h = .ok (.varMap m') h' ∧ h.Extends h' ∧
      Shows h' (mapContent (es ++ [(entry.name, mapContent entry.settings)])) (.varMap m') := by
  obtain ⟨c, hc, hname⟩ := hn.name
  obtain ⟨k, hk, hkind⟩ := hn.kind
  obtain ⟨q, hq, hprompt⟩ := hn.prompt
  obtain ⟨m₁, h₁, -, hset₁, hext₁, hm₁⟩ :=
    exists_run_setValue_makeVar (shows_mapContent_nil h) (.string entry.kind) "kind"
  obtain ⟨m₂, h₂, -, hset₂, hext₂, hm₂⟩ :=
    exists_run_setValue_makeVar hm₁ (.string entry.prompt) "prompt"
  -- the map of the entry, on either branch
  have hbranch : ∃ m₃ h₃, (∀ {α : Type} (f : VarType → Settings α),
        (if entry.kind = "integer" then integerSetup (.varMap m₂) n >>= f
          else f (.varMap m₂)).run h₂ = (f (.varMap m₃)).run h₃) ∧
      h₂.Extends h₃ ∧ Shows h₃ (mapContent entry.settings) (.varMap m₃) := by
    by_cases hinteger : entry.kind = "integer"
    · obtain ⟨m₃, h₃, hrun, hext, hm₃⟩ := exists_run_integerSetup hn hinteger hm₂
      refine ⟨m₃, h₃, fun f => ?_, hext, ?_⟩
      · rw [if_pos hinteger, run_bind_of_ok hrun]
      · rwa [SetupEntry.settings, if_pos hinteger]
    · refine ⟨m₂, h₂, fun f => ?_, Heap.Extends.refl h₂, ?_⟩
      · rw [if_neg hinteger]
      · rwa [SetupEntry.settings, if_neg hinteger]
  obtain ⟨m₃, h₃, hrun₃, hext₃, hm₃⟩ := hbranch
  have hext := (hext₁.trans hext₂).trans hext₃
  obtain ⟨m₄, h₄, hset₄, -, hext₄, hm₄⟩ :=
    exists_run_setValue_makeVar (hm.of_extends hext) hm₃ entry.name
  refine ⟨m₄, h₄, ?_, hext.trans hext₄, hm₄⟩
  simp only [setupEntry, node, deref_some, Prog.ofExcept_ok, pure_bind, hc, hk, hq, hname, hkind,
    hprompt]
  rw [hset₁, hset₂, hrun₃]
  exact hset₄

/-- All setup entries. -/
theorem exists_run_setupEntries {setups : List SetupEntry} {ns : List SyntaxNode}
    (hns : List.Forall₂ SetupEntry.Represents setups ns)
    (hm : Shows h (mapContent es) (.varMap m)) :
    ∃ m' h', (ns.foldlM setupEntry (.varMap m)).run h = .ok (.varMap m') h' ∧ h.Extends h' ∧
      Shows h' (mapContent (es ++ setups.map fun entry => (entry.name, mapContent entry.settings)))
        (.varMap m') := by
  induction hns generalizing h m es with
  | nil => exact ⟨m, h, rfl, Heap.Extends.refl h, by simpa using hm⟩
  | cons hn hns ih =>
    obtain ⟨m₁, h₁, hrun, hext, hm₁⟩ := exists_run_setupEntry hn hm
    obtain ⟨m', h', hrest, hext', hm'⟩ := ih hm₁
    rw [List.foldlM_cons, run_bind_of_ok hrun, hrest]
    exact ⟨m', h', rfl, hext.trans hext', by simpa using hm'⟩

/-- **What the map of the settings holds.** -/
theorem configurationParser_shows {config : Configuration} {root : SyntaxNode}
    (hroot : config.Represents root) (h : Heap) :
    ∃ m h', (configurationParser root).run h = .ok m h' ∧
      Shows h' (mapContent config.settings) (.varMap m) := by
  obtain ⟨gameConfig, nameNode, rangeNode, audienceNode, ns, hconfig, hchildren, hname, hrange,
    haudience, hsetups⟩ := hroot.children
  have hparse : parseBool audienceNode = .ok config.audience := by
    rw [parseBool, haudience]
    cases config.audience with
    | true => rfl
    | false => rfl
  obtain ⟨m₁, h₁, -, hset₁, -, hm₁⟩ :=
    exists_run_setValue_makeVar (shows_mapContent_nil h) (.string config.name) "name"
  obtain ⟨p, h₂, v, hrun₂, hext₂, hp, hv⟩ := exists_run_rangeParser hrange h₁
  obtain ⟨m₃, h₃, hset₃, hext₃, hm₃⟩ :=
    exists_run_setValue (hm₁.of_extends hext₂) hp hv "player_range"
  obtain ⟨m₄, h₄, -, hset₄, -, hm₄⟩ :=
    exists_run_setValue_makeVar hm₃ (.bool config.audience) "audience"
  obtain ⟨m, h', hrun, -, hm⟩ := exists_run_setupEntries hsetups hm₄
  refine ⟨m, h', ?_, hm⟩
  have hzero : gameConfig.getNamedChild 0 = some nameNode := by
    rw [SyntaxNode.getNamedChild, hchildren]
    rfl
  have hone : gameConfig.getNamedChild 1 = some rangeNode := by
    rw [SyntaxNode.getNamedChild, hchildren]
    rfl
  have htwo : gameConfig.getNamedChild 2 = some audienceNode := by
    rw [SyntaxNode.getNamedChild, hchildren]
    rfl
  have hdrop : gameConfig.namedChildren.drop 3 = ns := by
    rw [hchildren]
    rfl
  simp only [configurationParser, node, deref_some, Prog.ofExcept_ok, pure_bind, hconfig, hzero,
    hone, htwo, hdrop, hname, hparse]
  rw [hset₁, run_bind_of_ok hrun₂, run_bind_of_ok hset₃, hset₄, run_bind_of_ok hrun]
  rfl

end

/-! ### What is kept -/

/-- The map has a value with these contents under the key. -/
def HoldsAt (h : Heap) (m : VarMapType) (key : String) (t : Content) : Prop :=
  ∃ p v, m[key]? = some (some p) ∧ h.Holds p v ∧ Shows h t v

/-- The map has everything that the configuration declares. -/
structure Configuration.KeptIn (config : Configuration) (h : Heap) (m : VarMapType) : Prop where
  name : HoldsAt h m "name" (.leaf (.string config.name))
  playerRange : HoldsAt h m "player_range" (rangeContent config.lower config.upper)
  audience : HoldsAt h m "audience" (.leaf (.bool config.audience))
  setups : ∀ entry ∈ config.setups, HoldsAt h m entry.name (mapContent entry.settings)

/-- The keys that every configuration has. -/
def fixedKeys : List String := ["name", "player_range", "audience"]

theorem Shows.holdsAt_iff {h : Heap} {m : VarMapType} {f : String → Option Content} {key : String}
    {t : Content} (hm : Shows h (.map f) (.varMap m)) : HoldsAt h m key t ↔ f key = some t := by
  obtain - | - | - | - | ⟨hkeys, hlive, hm⟩ := hm
  constructor
  · rintro ⟨p, v, hp, hv, ht⟩
    obtain ⟨u, hu⟩ := Option.isSome_iff_exists.mp ((hkeys key).mp
      (ExtTreeMap.mem_iff_isSome_getElem?.mpr (by rw [hp]; rfl)))
    rw [hu, ht.unique (hm key p v u hp hv hu)]
  · intro ht
    obtain ⟨a, ha⟩ := Option.isSome_iff_exists.mp
      (ExtTreeMap.mem_iff_isSome_getElem?.mp ((hkeys key).mpr (by rw [ht]; rfl)))
    obtain ⟨p, v, rfl, hv⟩ := hlive key a ha
    exact ⟨p, v, ha, hv, hm key p v t ha hv ht⟩

/-- An entry with a key that no other entry has. -/
theorem lookup_eq_some_of_mem {α : Type} {l : List (String × α)} (hl : (l.map Prod.fst).Nodup)
    {key : String} {a : α} (ha : (key, a) ∈ l) : l.lookup key = some a := by
  induction l with
  | nil => cases ha
  | cons e l ih =>
    rw [List.map_cons, List.nodup_cons] at hl
    rw [List.lookup_cons]
    rcases List.mem_cons.mp ha with rfl | ha
    · simp
    · have hne : key ≠ e.1 := fun heq => hl.1 (heq ▸ List.mem_map_of_mem ha)
      rw [beq_false_of_ne hne]
      exact ih hl.2 ha

theorem mem_of_lookup_eq_some {α : Type} {l : List (String × α)} {key : String} {a : α}
    (h : l.lookup key = some a) : (key, a) ∈ l := by
  obtain ⟨l₁, l₂, rfl, -⟩ := List.lookup_eq_some_iff.mp h
  simp

section

variable {config : Configuration}

/-- The entries in the order in which they are looked at. -/
theorem Configuration.lookup_settings (config : Configuration) (key : String) :
    config.settings.reverse.lookup key
      = ((config.setups.map fun entry => (entry.name, mapContent entry.settings)).reverse.lookup
          key).or ([("audience", .leaf (.bool config.audience)),
            ("player_range", rangeContent config.lower config.upper),
            ("name", .leaf (.string config.name))].lookup key) := by
  rw [Configuration.settings, List.reverse_append, List.lookup_append]
  rfl

theorem leaf_ne_mapContent (a : Atom) (settings : List (String × Content)) :
    Nested.leaf a ≠ mapContent settings := by
  intro h
  cases h

theorem rangeContent_ne_mapContent (lower upper : Int32) (settings : List (String × Content)) :
    rangeContent lower upper ≠ mapContent settings := by
  intro h
  cases h

/-- What every configuration has is there if no entry is put in its place. -/
theorem Configuration.lookup_fixed (key : String) {t : Content}
    (hkey : [("audience", Nested.leaf (.bool config.audience)),
      ("player_range", rangeContent config.lower config.upper),
      ("name", .leaf (.string config.name))].lookup key = some t)
    (ht : ∀ settings, t ≠ mapContent settings) :
    config.settings.reverse.lookup key = some t ↔ ∀ entry ∈ config.setups, entry.name ≠ key := by
  rw [config.lookup_settings, hkey]
  cases hl : (config.setups.map fun entry =>
      (entry.name, mapContent entry.settings)).reverse.lookup key with
  | none =>
    rw [Option.none_or]
    refine iff_of_true rfl fun entry hentry heq => ?_
    have hmem : (entry.name, mapContent entry.settings) ∈ (config.setups.map fun entry =>
        (entry.name, mapContent entry.settings)).reverse :=
      List.mem_reverse.mpr (List.mem_map.mpr ⟨entry, hentry, rfl⟩)
    exact absurd (List.lookup_eq_none_iff.mp hl _ hmem) (by simp [heq])
  | some u =>
    obtain ⟨entry, hentry, heq⟩ :=
      List.mem_map.mp (List.mem_reverse.mp (mem_of_lookup_eq_some hl))
    obtain ⟨hname, rfl⟩ := Prod.mk.inj heq
    rw [Option.some_or]
    refine iff_of_false (fun h => ht entry.settings ?_) fun h => h entry hentry hname
    exact (Option.some.inj h).symm

theorem Configuration.lookup_setup (hnames : (config.setups.map SetupEntry.name).Nodup)
    {entry : SetupEntry} (hentry : entry ∈ config.setups) :
    config.settings.reverse.lookup entry.name = some (mapContent entry.settings) := by
  rw [config.lookup_settings, lookup_eq_some_of_mem (a := mapContent entry.settings)]
  · rfl
  · rw [List.map_reverse, (List.reverse_perm _).nodup_iff, List.map_map]
    exact hnames
  · exact List.mem_reverse.mpr (List.mem_map.mpr ⟨entry, hentry, rfl⟩)

/-- **Setup entries overwrite the configuration if they have one of its keys.** For every
configuration with setup entries under pairwise different names, the map of the settings has the
declared name, range and audience and each entry, if and only if no entry is called `name`,
`player_range` or `audience`. -/
theorem configuration_kept_iff (config : Configuration) (root : SyntaxNode)
    (hroot : config.Represents root) (hnames : (config.setups.map SetupEntry.name).Nodup)
    (h : Heap) :
    (∃ m h', (configurationParser root).run h = .ok m h' ∧ config.KeptIn h' m) ↔
      ∀ entry ∈ config.setups, entry.name ∉ fixedKeys := by
  obtain ⟨m, h', hrun, hm⟩ := configurationParser_shows hroot h
  have hname := config.lookup_fixed "name" rfl (leaf_ne_mapContent _)
  have hrange := config.lookup_fixed "player_range" rfl (rangeContent_ne_mapContent _ _)
  have haudience := config.lookup_fixed "audience" rfl (leaf_ne_mapContent _)
  have hkept : config.KeptIn h' m ↔ ∀ entry ∈ config.setups, entry.name ∉ fixedKeys := by
    simp only [fixedKeys, List.mem_cons, List.not_mem_nil, or_false, not_or, forall_and]
    rw [← hname, ← hrange, ← haudience, ← hm.holdsAt_iff, ← hm.holdsAt_iff, ← hm.holdsAt_iff]
    constructor
    · exact fun hkept => ⟨hkept.name, hkept.playerRange, hkept.audience⟩
    · rintro ⟨hname, hrange, haudience⟩
      exact ⟨hname, hrange, haudience, fun entry hentry =>
        hm.holdsAt_iff.mpr (config.lookup_setup hnames hentry)⟩
  constructor
  · rintro ⟨_, _, hrun', hm'⟩
    obtain ⟨rfl, rfl⟩ := EStateM.Result.ok.inj (hrun.symm.trans hrun')
    exact hkept.mp hm'
  · exact fun hfixed => ⟨m, h', hrun, hkept.mpr hfixed⟩

/-- The node of a number. -/
def numberNode (text : List Char) : SyntaxNode := .mk "number" text none true []

/-- The node of a range. -/
def rangeNode (lower upper : List Char) : SyntaxNode :=
  .mk "number_range" [] none true [numberNode lower, numberNode upper]

/-- A configuration with one setup entry, an integer with a default. -/
def configurationNode (setupName : String) : SyntaxNode :=
  .mk "game" [] none true [.mk "configuration" [] (some "configuration") true
    [.mk "quoted_string" "\"chess\"".toList none true [], rangeNode ['2'] ['4'],
      .mk "boolean" "false".toList none true [],
      .mk "setup_rule" [] none true [leafNode setupName "name",
        .mk "integer" "integer".toList (some "kind") false [], leafNode "\"How many?\"" "prompt",
        rangeNode ['1'] ['5'], numberNode ['3']]]]

/-- What it declares. -/
def oneSetup (setupName : String) : Configuration where
  name := "\"chess\""
  lower := 2
  upper := 4
  audience := false
  setups := [{ name := setupName, kind := "integer", prompt := "\"How many?\"", lower := 1,
               upper := 5, defaultInt := some 3 }]

theorem isRange_rangeNode {lower upper : List Char} {m n : Int32} (hm : stoi lower = some m)
    (hn : stoi upper = some n) : IsRange (rangeNode lower upper) m n :=
  ⟨⟨numberNode lower, rfl, hm⟩, numberNode upper, rfl, hn⟩

theorem oneSetup_represents (setupName : String) :
    (oneSetup setupName).Represents (configurationNode setupName) := by
  refine ⟨⟨_, _, _, _, _, rfl, rfl, rfl, isRange_rangeNode rfl rfl, rfl, .cons ?_ .nil⟩⟩
  refine ⟨⟨_, rfl, String.ofList_toList⟩, ⟨_, rfl, rfl⟩, ⟨_, rfl, rfl⟩,
    fun _ => ⟨_, rfl, isRange_rangeNode rfl rfl⟩, nofun, ?_⟩
  rintro - _ ⟨⟩
  exact ⟨_, rfl, rfl⟩

/-- An entry called `rounds`. -/
theorem configuration_kept_rounds :
    ∃ m h', (configurationParser (configurationNode "rounds")).run {} = .ok m h' ∧
      (oneSetup "rounds").KeptIn h' m :=
  (configuration_kept_iff (oneSetup "rounds") (configurationNode "rounds")
    (oneSetup_represents "rounds") (by simp [oneSetup]) {}).mpr (by simp [oneSetup, fixedKeys])

/-- An entry called `name` is put in the place of the name of the game. -/
theorem configuration_not_kept :
    (oneSetup "name").Represents (configurationNode "name") ∧
    ∃ m h', (configurationParser (configurationNode "name")).run {} = .ok m h' ∧
      ¬ HoldsAt h' m "name" (.leaf (.string "\"chess\"")) := by
  obtain ⟨m, h', hrun, hm⟩ := configurationParser_shows (oneSetup_represents "name") {}
  refine ⟨oneSetup_represents "name", m, h', hrun, fun hname => ?_⟩
  nomatch hm.holdsAt_iff.mp hname

end

end SocialGaming
