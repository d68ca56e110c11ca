/-
  BlockScript.Proofs.Log.Account

  The log of a pass against its definitions. Helpers and procedures are two writers of one list of
  definitions: a helper is defined by its first request only, a procedure by every definition, and
  all but the first of these are warned of. Whatever comes in which order, the records of the two
  less the warnings are as many as the definitions, the keys stand in the order of the first records
  of them, and neither writer touches what the other one wrote.

  The invariant is `Accounted`. Every request either registers nothing or sets the text of one key
  and records it, so `Accounted.register` is all that the two writers have to meet.
-/
import BlockScript.Proofs.Helper.Registry
import BlockScript.Proofs.Procedure.Registration

namespace BlockScript

open Definitions (helperKey procedureKey isHelperKey)

/-! ## Records of definitions -/

/-- The key that a record says to be defined. -/
def Record.definedKey? (entry : Record) : Option String :=
  match entry.event with
  | .helper => some (helperKey entry.subject)
  | .procedure => some (procedureKey entry.subject)
  | .rename | .defaultValue | .skippedBlock => none

namespace Log

/-- The keys that are recorded as defined, one for each record of a helper or a procedure. -/
def definedKeys (log : Log) : List String :=
  log.records.filterMap Record.definedKey?

theorem definedKeys_recordAll (log : Log) (entries : List Record) :
    (log.recordAll entries).definedKeys =
      log.definedKeys ++ entries.filterMap Record.definedKey? :=
  List.filterMap_append

theorem length_definedKeys (log : Log) :
    log.definedKeys.length =
      (log.recordsOf .helper).length + (log.recordsOf .procedure).length := by
  obtain ⟨records, warnings⟩ := log
  simp only [definedKeys, recordsOf]
  induction records with
  | nil => rfl
  | cons entry rest ih =>
    obtain ⟨event, blockId?, subject, detail⟩ := entry
    cases event with
    | helper => simp [Record.definedKey?, ih]; omega
    | procedure => simp [Record.definedKey?, ih]; omega
    | rename | defaultValue | skippedBlock =>
      rw [List.filterMap_cons_none rfl]
      simpa using ih

end Log

namespace NameTable

theorem definedKeys_changeRecord (name candidate : String) :
    (changeRecord name candidate).filterMap Record.definedKey? = [] := by
  rw [changeRecord]
  split <;> rfl

theorem definedKeys_distinct (t : NameTable) (name : String) (category : Category) :
    (t.distinct name category).records.filterMap Record.definedKey? = [] :=
  definedKeys_changeRecord _ _

theorem definedKeys_name (t : NameTable) (name : String) (category : Category) :
    (t.name name category).records.filterMap Record.definedKey? = [] := by
  rw [NameTable.name]
  dsimp only
  split
  · rfl
  · split <;> exact definedKeys_changeRecord _ _

end NameTable

/-! ## Requests for helpers -/

namespace Registry

variable {r : Registry} {indent : Except Fault String} {name : String} {template : List String}

/-- A helper that is provided stays so when another one is asked for. -/
theorem provides_provide {other : String} (h : r.provides other = true) :
    (r.provide indent name template).registry.provides other = true := by
  obtain ⟨emitted, hlookup⟩ := provides_eq_true_iff.mp h
  exact provides_eq_true_iff.mpr ⟨emitted, lookup_provide hlookup⟩

/-- A request for a helper, answered or not, registers nothing, or it registers the helper, which was
    not there before. -/
theorem provide_cases (r : Registry) (indent : Except Fault String) (name : String)
    (template : List String) :
    ((r.provide indent name template).registry.definitions = r.definitions ∧
      (r.provide indent name template).records.filterMap Record.definedKey? = []) ∨
    (r.provides name = false ∧ (r.provide indent name template).registry.provides name = true ∧
      (∃ text, (r.provide indent name template).registry.definitions =
        r.definitions.set (helperKey name) text) ∧
      (r.provide indent name template).records.filterMap Record.definedKey? = [helperKey name]) := by
  have hnaming := r.names.definedKeys_distinct name .procedure
  rw [provide]
  cases hlookup : r.helpers.lookup name with
  | some emitted => exact Or.inl ⟨rfl, rfl⟩
  | none =>
    dsimp only
    cases (r.names.distinct name .procedure).answer with
    | error fault => exact Or.inl ⟨rfl, hnaming⟩
    | ok emitted =>
      cases indent with
      | error fault =>
        -- The name is given before the indent is looked at: the helper is provided, not defined.
        exact Or.inl ⟨rfl, hnaming⟩
      | ok lead =>
        refine Or.inr ⟨provides_eq_false_iff.mpr hlookup, ?_, ⟨_, rfl⟩, ?_⟩
        · simp [provides]
        · rw [List.filterMap_append, hnaming]
          rfl

/-- Requests for helpers leave the entries of procedures. -/
theorem others_provide : (r.provide indent name template).registry.definitions.others =
    r.definitions.others := by
  obtain ⟨hsame, -⟩ | ⟨-, -, ⟨text, hset⟩, -⟩ := r.provide_cases indent name template
  · rw [hsame]
  · rw [hset, Definitions.others_set]

/-- The registry without the entries of procedures. -/
def ofHelpers (r : Registry) : Registry :=
  { r with definitions := r.definitions.ofHelpers }

/-- A request for a helper sees no entry of a procedure. -/
theorem ofHelpers_provide : (r.provide indent name template).registry.ofHelpers =
    (r.ofHelpers.provide indent name template).registry := by
  obtain ⟨names, definitions, helpers⟩ := r
  simp only [provide, ofHelpers]
  cases helpers.lookup name with
  | some emitted => rfl
  | none =>
    dsimp only
    cases (names.distinct name .procedure).answer with
    | error fault => rfl
    | ok emitted =>
      cases indent with
      | error fault => rfl
      | ok lead => simp only [Definitions.ofHelpers_set_helperKey]

end Registry

/-! ## Requests -/

namespace Pass

/-- What can be asked of a pass before it is finished. -/
inductive Request where
  | provide (name : String) (template : List String)
  | define (name text : String)
  | names (request : NameTable.Request)
  | reset
  /-- Another pass over the same names leaves them in some state. -/
  | share (names : NameTable)

/-- Whether a request defines a procedure. -/
def Request.isDefinition : Request → Bool
  | define _ _ => true
  | provide _ _ | names _ | reset | share _ => false

/-- The pass after one more request, also if it fails. -/
def step (o : Options) (p : Pass) : Request → Pass
  | .provide name template => (p.provide o.indentText name template).2
  | .define name text => p.define name text
  | .names (.name name category) => (p.name name category).2
  | .names (.distinct name category) => (p.distinct name category).2
  | .names (.reserve words) => p.withNames (p.names.reserve words)
  | .names (.setVariableNames variableNames) => p.withNames { p.names with variableNames }
  | .reset => p.withNames p.names.reset
  | .share names => p.withNames names

/-- The pass after a run of requests. -/
def run (o : Options) (p : Pass) (requests : List Request) : Pass :=
  requests.foldl (step o) p

variable {o : Options} {p q : Pass}

/-! ## The account -/

/-- The invariant: the keys of the definitions are the recorded ones, in the order in which they are
    first recorded; there is a record for each definition and for each warning; and a helper that is
    defined is provided, so that it is not defined again. -/
structure Accounted (p : Pass) : Prop where
  keys : p.definitions.map (·.1) = p.log.definedKeys.eraseDups
  count : p.definitions.length + p.log.warnings.length = p.log.definedKeys.length
  provided : ∀ name, p.definitions.hasKey (helperKey name) = true → p.registry.provides name = true

namespace Accounted

/-- A request that registers nothing keeps the account. -/
theorem silent (h : p.Accounted) (hdefinitions : q.definitions = p.definitions)
    (hkeys : q.log.definedKeys = p.log.definedKeys) (hwarnings : q.log.warnings = p.log.warnings)
    (hprovides : ∀ name, p.registry.provides name = true → q.registry.provides name = true) :
    q.Accounted where
  keys := by rw [hdefinitions, hkeys, h.keys]
  count := by rw [hdefinitions, hkeys, hwarnings, h.count]
  provided name hkey := hprovides name (h.provided name (hdefinitions ▸ hkey))

/-- A request that sets the text of a key and records the key keeps the account, if it gives a
    warning just where the key is there already. -/
theorem register (h : p.Accounted) {key text : String}
    (hdefinitions : q.definitions = p.definitions.set key text)
    (hkeys : q.log.definedKeys = p.log.definedKeys ++ [key])
    (hwarnings : q.log.warnings.length =
      p.log.warnings.length + if p.definitions.hasKey key = true then 1 else 0)
    (hprovided : ∀ name, q.definitions.hasKey (helperKey name) = true →
      q.registry.provides name = true) : q.Accounted := by
  -- A key is there already if and only if it was recorded before.
  have hmem : key ∈ p.definitions.map (·.1) ↔ key ∈ p.log.definedKeys := by
    rw [h.keys, List.mem_eraseDups]
  have hcount := h.count
  have hset : q.definitions.map (·.1) = if key ∈ p.definitions.map (·.1)
      then p.definitions.map (·.1) else p.definitions.map (·.1) ++ [key] := by
    rw [hdefinitions, Definitions.keys_set]
  refine ⟨?_, ?_, hprovided⟩
  · rw [hset, if_congr hmem rfl rfl, h.keys, hkeys, Definitions.eraseDups_append_singleton]
  · have hlength := congrArg List.length hset
    rw [List.length_map] at hlength
    rw [hlength, hwarnings, hkeys, List.length_append, List.length_singleton]
    by_cases hkey : key ∈ p.definitions.map (·.1)
    · rw [if_pos hkey, if_pos (Definitions.hasKey_iff.mpr hkey), List.length_map]
      omega
    · rw [if_neg hkey, if_neg (fun hhas => hkey (Definitions.hasKey_iff.mp hhas)),
        List.length_append, List.length_map, List.length_singleton]
      omega

/-- A request for a name registers nothing. -/
theorem named (h : p.Accounted) {naming : Naming}
    (hrecords : naming.records.filterMap Record.definedKey? = []) : (p.named naming).2.Accounted :=
  h.silent rfl (by rw [Pass.named, Log.definedKeys_recordAll, hrecords, List.append_nil]) rfl
    fun _ hprovides => hprovides

theorem withNames (h : p.Accounted) (names : NameTable) : (p.withNames names).Accounted :=
  h.silent rfl rfl rfl fun _ hprovides => hprovides

/-- A request for a helper, answered or not, keeps the account. -/
theorem provide (h : p.Accounted) (indent : Except Fault String) (name : String)
    (template : List String) : (p.provide indent name template).2.Accounted := by
  have hkeys : (p.provide indent name template).2.log.definedKeys = p.log.definedKeys ++
      (p.registry.provide indent name template).records.filterMap Record.definedKey? :=
    Log.definedKeys_recordAll _ _
  obtain ⟨hsame, hnone⟩ | ⟨hnew, hprovides, ⟨text, hset⟩, hone⟩ :=
    p.registry.provide_cases indent name template
  · rw [hnone, List.append_nil] at hkeys
    exact h.silent hsame hkeys rfl fun _ => Registry.provides_provide
  · rw [hone] at hkeys
    -- What is not provided is not defined, so that the key is a new one and nothing is warned of.
    have hkey : ¬ p.definitions.hasKey (helperKey name) = true := by
      intro hhas
      rw [h.provided name hhas] at hnew
      cases hnew
    refine h.register hset hkeys (by rw [if_neg hkey]; rfl) fun other hother => ?_
    rw [Pass.definitions, Pass.provide, hset, Definitions.hasKey_set_iff] at hother
    rcases hother with hsame | hold
    · rw [Definitions.helperKey_inj hsame]
      exact hprovides
    · exact Registry.provides_provide (h.provided other hold)

/-- The definition of a procedure keeps the account: it is warned of just where the procedure is
    there already. -/
theorem define (h : p.Accounted) (name text : String) : (p.define name text).Accounted := by
  refine h.register rfl ?_ ?_ fun other hother => ?_
  · rw [Pass.define]
    dsimp only
    split <;> exact List.filterMap_append
  · rw [Pass.define]
    dsimp only
    split
    · exact List.length_append
    · rfl
  · rcases Definitions.hasKey_set_iff.mp hother with hsame | hold
    · exact absurd hsame (Definitions.helperKey_ne_procedureKey other name)
    · exact h.provided other hold

theorem step (h : p.Accounted) (o : Options) (request : Request) :
    (p.step o request).Accounted := by
  cases request with
  | provide name template => exact h.provide _ name template
  | define name text => exact h.define name text
  | names request =>
    cases request with
    | name name category => exact h.named (p.names.definedKeys_name name category)
    | distinct name category => exact h.named (p.names.definedKeys_distinct name category)
    | reserve words => exact h.withNames _
    | setVariableNames variableNames => exact h.withNames _
  | reset => exact h.withNames _
  | share names => exact h.withNames names

theorem run (h : p.Accounted) (o : Options) (requests : List Request) :
    (p.run o requests).Accounted := by
  induction requests generalizing p with
  | nil => exact h
  | cons request rest ih => exact ih (h.step o request)

end Accounted

theorem accounted_start (names : NameTable) (variableNames : VariableNames) :
    (start names variableNames).Accounted :=
  ⟨rfl, rfl, fun _ hkey => nomatch hkey⟩

/-! ## The two writers apart -/

/-- Requests that do not change a view of the pass can be left out of a run, if all other ones depend
    on the view only. -/
theorem run_filter {α : Type} (view : Pass → α) {keep : Request → Bool}
    (hsilent : ∀ p request, keep request = false → view (p.step o request) = view p)
    (hstep : ∀ {p q} request, view p = view q → view (p.step o request) = view (q.step o request))
    (h : view p = view q) (requests : List Request) :
    view (p.run o requests) = view (q.run o (requests.filter keep)) := by
  -- Induction on the run, for two passes that look alike: what is kept is asked of both of them, and
  -- what is left out of the first one only.
  induction requests generalizing p q with
  | nil => exact h
  | cons request rest ih =>
    cases hkeep : keep request with
    | true =>
      rw [List.filter_cons_of_pos hkeep]
      exact ih (hstep request h)
    | false =>
      rw [List.filter_cons_of_neg (by rw [hkeep]; decide)]
      exact ih ((hsilent p request hkeep).trans h)

theorem ofHelpers_define (p : Pass) (name text : String) :
    (p.define name text).registry.ofHelpers = p.registry.ofHelpers :=
  congrArg (fun definitions => { p.registry with definitions })
    (Definitions.ofHelpers_set_procedureKey name)

/-- What a request does to the helpers depends on the helpers only. -/
theorem ofHelpers_step (request : Request) (h : p.registry.ofHelpers = q.registry.ofHelpers) :
    (p.step o request).registry.ofHelpers = (q.step o request).registry.ofHelpers := by
  -- All requests for names do no more than change the table.
  have hnames (change : NameTable → NameTable) :
      (p.withNames (change p.names)).registry.ofHelpers =
        (q.withNames (change q.names)).registry.ofHelpers :=
    congrArg (fun r : Registry => { r with names := change r.names }) h
  cases request with
  | provide name template =>
    have hprovide := congrArg
      (fun r : Registry => (r.provide o.indentText name template).registry) h
    exact Registry.ofHelpers_provide.trans (hprovide.trans Registry.ofHelpers_provide.symm)
  | define name text =>
    exact (ofHelpers_define p name text).trans (h.trans (ofHelpers_define q name text).symm)
  | names request =>
    cases request with
    | name name category => exact hnames fun t => (t.name name category).table
    | distinct name category => exact hnames fun t => (t.distinct name category).table
    | reserve words => exact hnames fun t => t.reserve words
    | setVariableNames variableNames => exact hnames fun t => { t with variableNames }
  | reset => exact hnames NameTable.reset
  | share names => exact hnames fun _ => names

/-- The entries of helpers behind a run are those behind the run without its definitions of
    procedures. -/
theorem ofHelpers_run (p : Pass) (o : Options) (requests : List Request) :
    (p.run o requests).definitions.ofHelpers =
      (p.run o (requests.filter (!·.isDefinition))).definitions.ofHelpers := by
  refine congrArg Registry.definitions (run_filter (·.registry.ofHelpers)
    (fun p request hdefinition => ?_) ofHelpers_step rfl requests)
  cases request with
  | define name text => exact ofHelpers_define p name text
  | provide _ _ | names _ | reset | share _ => cases hdefinition

/-- Nothing but the definition of a procedure changes the entries of procedures. -/
theorem others_silent (p : Pass) (request : Request) (h : request.isDefinition = false) :
    (p.step o request).definitions.others = p.definitions.others := by
  cases request with
  | provide name template => exact Registry.others_provide
  | define name text => cases h
  | names request => cases request <;> rfl
  | reset => rfl
  | share names => rfl

/-- What a request does to the procedures depends on the procedures only. -/
theorem others_step (request : Request) (h : p.definitions.others = q.definitions.others) :
    (p.step o request).definitions.others = (q.step o request).definitions.others := by
  cases hdefinition : request.isDefinition with
  | false => rw [others_silent p request hdefinition, others_silent q request hdefinition, h]
  | true =>
    cases request with
    | define name text =>
      have hset (p : Pass) : (p.define name text).definitions.others =
          p.definitions.others.set (procedureKey name) text :=
        Definitions.others_set_procedureKey name
      exact (hset p).trans ((congrArg (Definitions.set _ text) h).trans (hset q).symm)
    | provide _ _ | names _ | reset | share _ => cases hdefinition

/-- The entries of procedures behind a run are those behind its definitions of procedures alone. -/
theorem others_run (p : Pass) (o : Options) (requests : List Request) :
    (p.run o requests).definitions.others =
      (p.run o (requests.filter (·.isDefinition))).definitions.others :=
  run_filter (·.definitions.others) others_silent others_step rfl requests

/-- The log of a pass accounts for its definitions, over every run of requests and also where some of
    them fail. There are as many definitions and warnings as there are records of helpers and
    procedures; the keys stand in the order in which they are first recorded; and the entries of
    helpers are the definitions of the run without procedures, as those of procedures are the
    definitions of the run of procedures alone. -/
theorem definitions_accounted (names : NameTable) (variableNames : VariableNames) (o : Options)
    (requests : List Request) :
    let start := Pass.start names variableNames
    let p := start.run o requests
    p.definitions.length + p.log.warnings.length =
      (p.log.recordsOf .helper).length + (p.log.recordsOf .procedure).length ∧
    p.definitions.map (·.1) = p.log.definedKeys.eraseDups ∧
    p.definitions.ofHelpers = (start.run o (requests.filter (!·.isDefinition))).definitions ∧
    p.definitions.others = (start.run o (requests.filter (·.isDefinition))).definitions := by
  have h := (accounted_start names variableNames).run o requests
  refine ⟨?_, h.keys, ?_, ?_⟩
  · rw [h.count, Log.length_definedKeys]
  · -- A run without procedures leaves no entry of one.
    have hnone := others_run (start names variableNames) o (requests.filter (!·.isDefinition))
    simp only [List.filter_filter, Bool.and_not_self, List.filter_false] at hnone
    rw [ofHelpers_run, Definitions.ofHelpers_eq_self hnone]
  · have hnone := ofHelpers_run (start names variableNames) o (requests.filter (·.isDefinition))
    simp only [List.filter_filter, Bool.not_and_self, List.filter_false] at hnone
    rw [others_run, Definitions.others_eq_self hnone]

/-- A procedure and a helper of one name: the last text of the one and the first text of the other. -/
example :
    let p := (start (.new [] (some "")) []).run .default
      [.define "f" "a", .provide "f" ["b"], .define "f" "c", .provide "f" ["d"]]
    (p.definitions, p.log.warnings) =
      ([("%f", "c"), ("helper%f", "b")], ["Procedure f defined more than once"]) := by
  with_unfolding_all rfl

end Pass

end BlockScript
