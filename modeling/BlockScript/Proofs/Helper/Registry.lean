/-
  BlockScript.Proofs.Helper.Registry

  The registry over a run of requests. Its helpers, the definitions and the table of names change at
  different times: a helper is named once and defined once, clearing takes both away, and the name
  stays taken.

  What the run asks of the table is one history of the table, so that the names of helpers differ
  from all other names by what is known of histories. What is provided is told by the last of the
  requests, and a provided helper keeps its name and its definition until the registry is cleared.
-/
import BlockScript.Proofs.Helper.Linkage
import BlockScript.Proofs.Name.Unicity

namespace BlockScript

open Definitions (helperKey)

/-! ## Histories of names in parts -/

namespace NameTable.History

theorem step_eq (h : History) (request : Request) :
    h.step request =
      ⟨h.grants ++ ((⟨[], h.table⟩ : History).step request).grants,
        ((⟨[], h.table⟩ : History).step request).table⟩ := by
  cases request <;> simp [step]

/-- What a run adds to a history depends on the table only. -/
theorem run_eq (h : History) (requests : List Request) :
    h.run requests =
      ⟨h.grants ++ ((⟨[], h.table⟩ : History).run requests).grants,
        ((⟨[], h.table⟩ : History).run requests).table⟩ := by
  induction requests generalizing h with
  | nil => simp [run]
  | cons request rest ih =>
    have hrun : ∀ h' : History, h'.run (request :: rest) = (h'.step request).run rest :=
      fun _ => rfl
    rw [hrun, hrun, ih (h.step request), ih ((⟨[], h.table⟩ : History).step request), step_eq h]
    simp only [List.append_assoc]

theorem run_append (h : History) (requests requests' : List Request) :
    h.run (requests ++ requests') = (h.run requests).run requests' :=
  List.foldl_append

end NameTable.History

namespace Registry

open NameTable (History Grant)

/-! ## Requests -/

/-- What can be asked of a registry and of its names between two resets of the names. -/
inductive Request where
  | provide (name : String) (template : List String)
  | contains (name : String)
  | clear
  | names (request : NameTable.Request)

/-- What a request asks of the names: a new one for a helper that is not yet provided, or what it
    says itself. -/
def asked (r : Registry) : Request → List NameTable.Request
  | .provide name _ => if r.provides name then [] else [.distinct name .procedure]
  | .contains _ => []
  | .clear => []
  | .names request => [request]

/-- The registry after one more request. -/
def step (indent : String) (r : Registry) : Request → Registry
  | .provide name template => (r.provide (.ok indent) name template).registry
  | .contains _ => r
  | .clear => r.clearHelpers
  | .names request => { r with names := ((⟨[], r.names⟩ : History).step request).table }

/-- The registry after a run of requests. -/
def run (indent : String) (r : Registry) (requests : List Request) : Registry :=
  requests.foldl (step indent) r

/-- What a run of requests asks of the names. -/
def asks (indent : String) (r : Registry) : List Request → List NameTable.Request
  | [] => []
  | request :: rest => r.asked request ++ (r.step indent request).asks indent rest

/-- The names that are handed out over a run of requests, the oldest first. -/
def handedOut (indent : String) (r : Registry) (requests : List Request) :
    List (Except Fault String) :=
  ((⟨[], r.names⟩ : History).run (r.asks indent requests)).grants.map (·.answer)

/-- A registry without helpers over a table with an empty prefix that has handed out nothing. There
    may be definitions already. -/
structure Opened (r : Registry) : Prop where
  names : r.names = NameTable.new r.names.reserved (some "")
  helpers : r.helpers = []

/-- Whether a helper was asked for since the registry was last cleared. -/
def Request.Provided (name : String) (requests : List Request) : Prop :=
  ∃ before template after,
    requests = before ++ .provide name template :: after ∧ Request.clear ∉ after

variable {indent : String} {r : Registry} {name : String}

theorem run_append (before after : List Request) :
    r.run indent (before ++ after) = (r.run indent before).run indent after :=
  List.foldl_append

theorem asks_append (before after : List Request) :
    r.asks indent (before ++ after) =
      r.asks indent before ++ (r.run indent before).asks indent after := by
  induction before generalizing r with
  | nil => rfl
  | cons request rest ih =>
    rw [List.cons_append, asks, asks, ih, List.append_assoc]
    rfl

/-! ## What one request does -/

theorem provides_eq_true_iff :
    r.provides name = true ↔ ∃ emitted, r.helpers.lookup name = some emitted := by
  rw [provides, ← Option.isSome_iff_exists, List.lookup_isSome_iff, List.any_eq_true]
  refine exists_congr fun helper => and_congr_right fun _ => ?_
  rw [decide_eq_true_iff, beq_iff_eq, eq_comm]

theorem provides_eq_false_iff :
    r.provides name = false ↔ r.helpers.lookup name = none := by
  rw [← Bool.not_eq_true, provides_eq_true_iff, Option.eq_none_iff_forall_ne_some, not_exists]

/-- A helper that is provided is found, whatever the template says. -/
theorem provide_of_lookup {emitted : String} (h : r.helpers.lookup name = some emitted)
    (template : List String) : r.provide (.ok indent) name template = ⟨.ok emitted, [], r⟩ := by
  rw [provide, h]
  rfl

/-- A helper that is not provided gets a name that is free, and a definition. -/
theorem provide_of_lookup_eq_none (indent : String) (h : r.helpers.lookup name = none)
    (template : List String) :
    ∃ emitted, r.names.isFree emitted = true ∧
      (r.names.distinct name .procedure).answer = .ok emitted ∧
      (r.provide (.ok indent) name template).answer = .ok emitted ∧
      (r.provide (.ok indent) name template).registry =
        { names := (r.names.distinct name .procedure).table
          definitions := r.definitions.set (helperKey name)
            (Helper.reindent indent (Helper.instantiate template emitted))
          helpers := r.helpers ++ [(name, emitted)] } := by
  refine ⟨r.names.freeName (Name.safe name), NameTable.freeName_isFree _ _, ?_⟩
  have hanswer : (r.names.distinct name .procedure).answer
      = .ok (r.names.freeName (Name.safe name)) :=
    congrArg Except.ok String.empty_append
  rw [provide, h]
  dsimp only
  rw [hanswer]
  exact ⟨rfl, rfl, rfl⟩

/-- Only a request for a helper adds it, and only clearing takes it away. -/
theorem provides_step_iff (request : Request) :
    (r.step indent request).provides name = true ↔
      (∃ template, request = .provide name template) ∨
        request ≠ .clear ∧ r.provides name = true := by
  cases request with
  | provide other template =>
    have hstep : (r.step indent (.provide other template)).provides name = true ↔
        other = name ∨ r.provides name = true := by
      rw [step]
      cases hlookup : r.helpers.lookup other with
      | some emitted =>
        rw [provide_of_lookup hlookup]
        refine ⟨Or.inr, ?_⟩
        rintro (rfl | h)
        · exact provides_eq_true_iff.mpr ⟨emitted, hlookup⟩
        · exact h
      | none =>
        obtain ⟨emitted, -, -, -, hregistry⟩ :=
          provide_of_lookup_eq_none indent hlookup template
        rw [hregistry, provides, List.any_append, Bool.or_eq_true, List.any_cons, List.any_nil,
          Bool.or_false, decide_eq_true_iff, or_comm]
        rfl
    rw [hstep]
    simp
  | contains other => simp [step]
  | clear => simp [step, clearHelpers, provides]
  | names request =>
    simp only [reduceCtorEq, exists_false, ne_eq, not_false_eq_true, true_and, false_or]
    rfl

/-- What a request asks of the names is what it does to them. -/
theorem names_step (r : Registry) (indent : String) (request : Request) :
    (r.step indent request).names = ((⟨[], r.names⟩ : History).run (r.asked request)).table := by
  cases request with
  | provide other template =>
    rw [step, asked]
    cases hprovides : r.provides other with
    | true =>
      obtain ⟨emitted, hlookup⟩ := provides_eq_true_iff.mp hprovides
      rw [provide_of_lookup hlookup]
      rfl
    | false =>
      obtain ⟨emitted, -, -, -, hregistry⟩ := provide_of_lookup_eq_none indent
        (provides_eq_false_iff.mp hprovides) template
      rw [hregistry]
      rfl
  | contains other => rfl
  | clear => rfl
  | names request => rfl

/-- Requests leave all definitions that are not those of helpers. -/
theorem others_step (request : Request) :
    (r.step indent request).definitions.others = r.definitions.others := by
  cases request with
  | provide other template =>
    rw [step]
    cases hlookup : r.helpers.lookup other with
    | some emitted => rw [provide_of_lookup hlookup]
    | none =>
      obtain ⟨emitted, -, -, -, hregistry⟩ :=
        provide_of_lookup_eq_none indent hlookup template
      rw [hregistry]
      exact Definitions.others_set other
  | contains other => rfl
  | clear =>
    have herase : ∀ (helpers : List (String × String)) (d : Definitions),
        (helpers.foldl (fun d h => d.erase (helperKey h.1)) d).others = d.others := by
      intro helpers
      induction helpers with
      | nil => exact fun d => rfl
      | cons helper rest ih => exact fun d => (ih _).trans (Definitions.others_erase helper.1)
    exact herase r.helpers r.definitions
  | names request => rfl

/-! ## Provided helpers -/

/-- A registry that provides a helper under a name, with its definition. -/
structure Holds (r : Registry) (name emitted text : String) : Prop where
  lookup : r.helpers.lookup name = some emitted
  definition : r.definitions.lookup (helperKey name) = some text

/-- The request for a helper that is not provided makes the registry hold it. -/
theorem holds_provide (indent : String) (h : r.helpers.lookup name = none) (template : List String) :
    ∃ emitted, r.names.isFree emitted = true ∧
      (r.names.distinct name .procedure).answer = .ok emitted ∧
      (r.provide (.ok indent) name template).answer = .ok emitted ∧
      (r.step indent (.provide name template)).Holds name emitted
        (Helper.reindent indent (Helper.instantiate template emitted)) := by
  obtain ⟨emitted, hfree, hnaming, hanswer, hregistry⟩ :=
    provide_of_lookup_eq_none indent h template
  refine ⟨emitted, hfree, hnaming, hanswer, ?_, ?_⟩
  · rw [step, hregistry, List.lookup_append, h]
    exact List.lookup_cons_self
  · rw [step, hregistry]
    exact Definitions.lookup_set_self

variable {emitted text : String}

/-- A helper is held until the registry is cleared. -/
theorem Holds.step (h : r.Holds name emitted text) {request : Request} (hclear : request ≠ .clear) :
    (r.step indent request).Holds name emitted text := by
  cases request with
  | provide other template =>
    refine ⟨lookup_provide h.lookup, ?_⟩
    rw [Registry.step]
    cases hlookup : r.helpers.lookup other with
    | some _ =>
      rw [provide_of_lookup hlookup]
      exact h.definition
    | none =>
      obtain ⟨_, -, -, -, hregistry⟩ :=
        provide_of_lookup_eq_none indent hlookup template
      have hkey : helperKey name ≠ helperKey other := by
        intro hsame
        rw [← Definitions.helperKey_inj hsame, h.lookup] at hlookup
        cases hlookup
      rw [hregistry]
      exact (Definitions.lookup_set_of_ne hkey).trans h.definition
  | contains other => exact h
  | clear => exact absurd rfl hclear
  | names request => exact ⟨h.lookup, h.definition⟩

theorem Holds.run (h : r.Holds name emitted text) (indent : String) {requests : List Request}
    (hclear : Request.clear ∉ requests) : (r.run indent requests).Holds name emitted text := by
  induction requests generalizing r with
  | nil => exact h
  | cons request rest ih =>
    rw [List.mem_cons, not_or] at hclear
    exact ih (h.step (Ne.symm hclear.1)) hclear.2

/-! ## Runs -/

/-- What a run of requests asks of the names is what it does to them. -/
theorem names_run (requests : List Request) :
    (r.run indent requests).names =
      ((⟨[], r.names⟩ : History).run (r.asks indent requests)).table := by
  induction requests generalizing r with
  | nil => rfl
  | cons request rest ih =>
    rw [asks, History.run_append, History.run_eq ((⟨[], r.names⟩ : History).run (r.asked request)),
      ← names_step]
    exact ih

theorem others_run (requests : List Request) :
    (r.run indent requests).definitions.others = r.definitions.others := by
  induction requests generalizing r with
  | nil => rfl
  | cons request rest ih => exact ih.trans (others_step request)

theorem Request.provided_append_singleton (requests : List Request) (request : Request) :
    Provided name (requests ++ [request]) ↔
      (∃ template, request = .provide name template) ∨
        request ≠ .clear ∧ Provided name requests := by
  constructor
  · rintro ⟨before, template, after, hsplit, hclear⟩
    rcases List.eq_nil_or_concat after with rfl | ⟨after, last, rfl⟩
    · obtain ⟨-, hlast⟩ := List.append_inj' hsplit rfl
      exact Or.inl ⟨template, (List.cons.inj hlast).1⟩
    · rw [List.concat_eq_append] at hsplit hclear
      rw [← List.cons_append, ← List.append_assoc] at hsplit
      obtain ⟨rfl, hlast⟩ := List.append_inj' hsplit rfl
      obtain rfl := (List.cons.inj hlast).1
      refine Or.inr ⟨?_, before, template, after, rfl, fun h => hclear (List.mem_append_left _ h)⟩
      rintro rfl
      exact hclear (List.mem_append_right _ List.mem_cons_self)
  · rintro (⟨template, rfl⟩ | ⟨hne, before, template, after, rfl, hclear⟩)
    · exact ⟨requests, template, [], rfl, List.not_mem_nil⟩
    · refine ⟨before, template, after ++ [request], by simp, ?_⟩
      rw [List.mem_append, List.mem_singleton, not_or]
      exact ⟨hclear, Ne.symm hne⟩

/-- A registry that began without helpers provides those that were asked for since it was last
    cleared. -/
theorem provides_run_iff (h : r.helpers = []) (requests : List Request) (name : String) :
    (r.run indent requests).provides name = true ↔ Request.Provided name requests := by
  induction requests using List.reverseRecOn with
  | nil =>
    have hnone : ¬ Request.Provided name [] := by
      rintro ⟨before, template, after, hsplit, -⟩
      exact absurd hsplit.symm (by simp)
    simp [run, provides, h, hnone]
  | append_singleton requests request ih =>
    rw [run_append, Request.provided_append_singleton, ← ih]
    exact provides_step_iff request

/-- What is handed out over a run, in front of a helper that is named and behind it. -/
theorem grants_around {before : List Request} (h : (r.run indent before).provides name = false)
    (template : List String) (after : List Request) :
    ∃ front back : List Grant,
      front.map (·.answer) = r.handedOut indent before ∧
      back.map (·.answer) =
        (r.run indent (before ++ [.provide name template])).handedOut indent after ∧
      ((⟨[], r.names⟩ : History).run
          (r.asks indent (before ++ .provide name template :: after))).grants =
        front ++ ⟨(r.run indent before).names, none, .procedure,
          ((r.run indent before).names.distinct name .procedure).answer⟩ :: back := by
  refine ⟨_, _, rfl, rfl, ?_⟩
  have hasked : (r.run indent before).asked (.provide name template)
      = [.distinct name .procedure] := by
    rw [asked, h]
    rfl
  have hstep := names_step (r.run indent before) indent (.provide name template)
  rw [asks_append, asks, History.run_append, History.run_eq, ← names_run, History.run_append,
    History.run_eq ((⟨[], (r.run indent before).names⟩ : History).run _), ← hstep, hasked,
    run_append]
  rfl

/-- The name of a helper that is not provided is handed out at no other time, before or after. -/
theorem Opened.not_mem_handedOut (hr : r.Opened) {before : List Request}
    (hprovides : (r.run indent before).provides name = false) (template : List String)
    (after : List Request) {emitted : String}
    (hnaming : ((r.run indent before).names.distinct name .procedure).answer = .ok emitted) :
    .ok emitted ∉ r.handedOut indent before ∧
      .ok emitted ∉ (r.run indent (before ++ [.provide name template])).handedOut indent after := by
  obtain ⟨front, back, hfront, hback, hgrants⟩ :=
    grants_around hprovides template after
  have hstart : History.start r.names = ⟨[], r.names⟩ := by
    rw [History.start, hr.names]
    rfl
  have hsame : ∀ category, r.names.prefixFor category = .ok "" := by
    intro category
    rw [hr.names]
    cases category <;> rfl
  -- One history holds what is handed out ahead of the helper, its name and what comes behind it.
  have hpairs := ((NameTable.History.inv_start r.names).run
    (r.asks indent (before ++ .provide name template :: after))).differ
  rw [hstart, hgrants, List.pairwise_append, List.pairwise_cons] at hpairs
  obtain ⟨-, ⟨hbehind, -⟩, hahead⟩ := hpairs
  rw [← hfront, ← hback]
  constructor
  · intro hmem
    obtain ⟨g, hg, hanswer⟩ := List.mem_map.mp hmem
    refine hahead g hg _ List.mem_cons_self ?_ (by rw [hsame, hsame]) emitted hanswer hnaming
    by_cases hkey : g.key? = none
    · exact Or.inl hkey
    · exact Or.inr hkey
  · intro hmem
    obtain ⟨g, hg, hanswer⟩ := List.mem_map.mp hmem
    exact hbehind g hg (Or.inl rfl) (by rw [hsame, hsame]) emitted hnaming hanswer

/-- A registry over a table of names with an empty prefix, over every run of requests. It provides
    the helpers that were asked for since it was last cleared. A helper that is not provided gets a
    name that is not reserved and that is handed out at no other time, before or after; until the
    registry is cleared, every request for it gives that name and changes nothing, and its definition
    is that of the first template. All definitions that are not those of helpers stay. -/
theorem run_consistent (hr : r.Opened) (indent : String) :
    (∀ requests name,
      (r.run indent requests).provides name = true ↔ Request.Provided name requests) ∧
    (∀ before name template after, (r.run indent before).provides name = false →
      ∃ emitted,
        ((r.run indent before).provide (.ok indent) name template).answer = .ok emitted ∧
        emitted ∉ (r.run indent before).names.reserved ∧
        .ok emitted ∉ r.handedOut indent before ∧
        .ok emitted ∉ (r.run indent (before ++ [.provide name template])).handedOut indent after ∧
        (Request.clear ∉ after →
          (∀ other,
            (r.run indent (before ++ .provide name template :: after)).provide (.ok indent) name
                other =
              ⟨.ok emitted, [], r.run indent (before ++ .provide name template :: after)⟩) ∧
          (r.run indent (before ++ .provide name template :: after)).definitions.lookup
              (helperKey name) =
            some (Helper.reindent indent (Helper.instantiate template emitted)))) ∧
    ∀ requests, (r.run indent requests).definitions.others = r.definitions.others := by
  refine ⟨fun requests name => provides_run_iff hr.helpers requests name, ?_,
    fun _ => others_run _⟩
  intro before name template after hprovides
  obtain ⟨emitted, hfree, hnaming, hanswer, hholds⟩ := holds_provide indent
    (provides_eq_false_iff.mp hprovides) template
  obtain ⟨hahead, hbehind⟩ := hr.not_mem_handedOut hprovides template after hnaming
  refine ⟨emitted, hanswer, (NameTable.isFree_eq_true_iff.mp hfree).2, hahead, hbehind, ?_⟩
  intro hclear
  have hkept := hholds.run indent hclear
  rw [run_append]
  exact ⟨provide_of_lookup hkept.lookup, hkept.definition⟩

/-- A registry over names of which one is reserved, with the definition of a procedure. -/
def withReserved (word : String) : Registry :=
  ⟨NameTable.new [word] (some ""), [("%f", "f := 1")], []⟩

/-- A helper gets a name that differs from the reserved word and from the name of a procedure, and
    keeps it while other names come in between. -/
theorem run_consistent_trim :
    (withReserved "trim").Opened ∧
      (((withReserved "trim").run "  " [.names (.name "trim" .procedure)]).provide (.ok "  ") "trim"
        ["a"]).answer = .ok "trim3" ∧
      (((withReserved "trim").run "  " [.names (.name "trim" .procedure), .provide "trim" ["a"],
        .names (.distinct "trim" .procedure)]).provide (.ok "  ") "trim" ["b"]).answer =
        .ok "trim3" := by
  have hr : (withReserved "trim").Opened := ⟨rfl, rfl⟩
  have hfirst : (((withReserved "trim").run "  " [.names (.name "trim" .procedure)]).provide
      (.ok "  ") "trim" ["a"]).answer = .ok "trim3" := by
    with_unfolding_all rfl
  obtain ⟨-, hdefined, -⟩ := run_consistent hr "  "
  obtain ⟨emitted, hanswer, -, -, -, hkept⟩ := hdefined [.names (.name "trim" .procedure)] "trim"
    ["a"] [.names (.distinct "trim" .procedure)] (by decide)
  obtain rfl := Except.ok.inj (hfirst.symm.trans hanswer)
  exact ⟨hr, hfirst, congrArg Provision.answer ((hkept (by simp)).1 ["b"])⟩

end Registry

end BlockScript
