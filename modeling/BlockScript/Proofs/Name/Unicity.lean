/-
  BlockScript.Proofs.Name.Unicity

  What a table of names hands out over a run of requests. Requests for one name of one category get
  one answer, whatever comes in between; all other answers of categories with one prefix differ; and
  no identifier was a reserved word when it was allotted.

  The memo of a table and the list of what is taken are tied together by `Apart`: a memo entry is
  taken, and two entries differ. `History.Inv` adds that every answer given so far can be read off
  the table.
-/
import BlockScript.Proofs.Name.Allocation
import BlockScript.Proofs.Name.Key

namespace BlockScript.NameTable

/-! ## Histories -/

/-- What can be asked of a table between two resets. -/
inductive Request where
  | name (name : String) (category : Category)
  | distinct (name : String) (category : Category)
  | reserve (words : List String)
  | setVariableNames (names : VariableNames)

/-- One answer of a table. -/
structure Grant where
  /-- The table to which the request went. -/
  before : NameTable
  /-- The name that was meant; none for a name that has to differ from all others. -/
  source? : Option String
  category : Category
  answer : Except Fault String

/-- What the answer is remembered by: the name in lower case and the category. -/
def Grant.key? (g : Grant) : Option (String × Category) :=
  g.source?.map fun source => (Text.lower source, g.category)

/-- The answers of a table so far, the oldest first, and the table. -/
structure History where
  grants : List Grant
  table : NameTable

namespace History

/-- A table that was just reset. -/
def start (t : NameTable) : History :=
  ⟨[], t.reset⟩

/-- The history after one more request. -/
def step (h : History) : Request → History
  | .name name category =>
    { grants := h.grants ++
        [⟨h.table, some (h.table.meant name category), category, (h.table.name name category).answer⟩]
      table := (h.table.name name category).table }
  | .distinct name category =>
    { grants := h.grants ++ [⟨h.table, none, category, (h.table.distinct name category).answer⟩]
      table := (h.table.distinct name category).table }
  | .reserve words => { h with table := h.table.reserve words }
  | .setVariableNames names => { h with table := { h.table with variableNames := names } }

/-- The history after a run of requests. -/
def run (h : History) (requests : List Request) : History :=
  requests.foldl step h

end History

/-! ## What one request does -/

/-- An answer that hands out an identifier that was free. It is remembered if a name was meant and
    the prefix is a text. -/
structure Grant.Fresh (g : Grant) (after : NameTable) (candidate : String) : Prop where
  isFree : g.before.isFree candidate = true
  answer : g.answer = (g.before.prefixFor g.category).map (· ++ candidate)
  taken : after.taken = candidate :: g.before.taken
  variablePrefix : after.variablePrefix? = g.before.variablePrefix?
  memo : (after.memo = g.before.memo ∧ ∀ source, g.source? = some source →
      ∃ fault, g.before.prefixFor g.category = .error fault) ∨
    ∃ source, g.source? = some source ∧
      g.before.memo.lookup (memoKey source g.category) = none ∧
      after.memo = (memoKey source g.category, candidate) :: g.before.memo

theorem prefixFor_congr {t t' : NameTable} (h : t'.variablePrefix? = t.variablePrefix?)
    (category : Category) : t'.prefixFor category = t.prefixFor category := by
  cases category <;> simp only [prefixFor, h]

/-- A name that has to differ from all others is a fresh identifier. -/
theorem distinct_fresh (t : NameTable) (name : String) (category : Category) :
    ∃ candidate, Grant.Fresh ⟨t, none, category, (t.distinct name category).answer⟩
      (t.distinct name category).table candidate := by
  refine ⟨t.freeName (Name.safe name), freeName_isFree t _, rfl, rfl, rfl, Or.inl ⟨rfl, ?_⟩⟩
  intro source hsource
  exact absurd hsource.symm (Option.some_ne_none source)

/-- A remembered name is the remembered identifier behind its prefix, and the table stays. -/
theorem name_of_lookup_eq_some {t : NameTable} {name candidate : String} {category : Category}
    (h : t.memo.lookup (memoKey (t.meant name category) category) = some candidate) :
    (t.name name category).answer = (t.prefixFor category).map (· ++ candidate) ∧
      (t.name name category).table = t := by
  simp only [NameTable.name, h, and_self]

/-- A name that is not remembered is a fresh identifier. -/
theorem name_fresh {t : NameTable} {name : String} {category : Category}
    (h : t.memo.lookup (memoKey (t.meant name category) category) = none) :
    ∃ candidate, Grant.Fresh
      ⟨t, some (t.meant name category), category, (t.name name category).answer⟩
      (t.name name category).table candidate := by
  refine ⟨t.freeName (Name.safe (t.meant name category)), ?_⟩
  have hfree := freeName_isFree t (Name.safe (t.meant name category))
  simp only [NameTable.name, h, allot]
  cases hlead : t.prefixFor category with
  | ok lead => exact ⟨hfree, by rw [hlead]; rfl, rfl, rfl, Or.inr ⟨_, rfl, h, rfl⟩⟩
  | error fault =>
    exact ⟨hfree, by rw [hlead]; rfl, rfl, rfl, Or.inl ⟨rfl, fun _ _ => ⟨fault, hlead⟩⟩⟩

namespace Grant.Fresh

variable {g : Grant} {after : NameTable} {candidate : String}

theorem not_mem_taken (h : g.Fresh after candidate) : candidate ∉ g.before.taken :=
  (isFree_eq_true_iff.mp h.isFree).1

/-- What was remembered before the answer is remembered after it. -/
theorem lookup_mono (h : g.Fresh after candidate) {key c : String}
    (hkey : g.before.memo.lookup key = some c) : after.memo.lookup key = some c := by
  rcases h.memo with ⟨hmemo, -⟩ | ⟨source, -, hnone, hmemo⟩
  · rw [hmemo, hkey]
  · rw [hmemo]
    exact lookup_cons_of_none hnone hkey

/-- What is remembered after the answer was remembered before it, or is the answer. -/
theorem lookup_after (h : g.Fresh after candidate) {key c : String}
    (hkey : after.memo.lookup key = some c) : g.before.memo.lookup key = some c ∨
      c = candidate ∧ ∃ source, g.source? = some source ∧ memoKey source g.category = key := by
  rcases h.memo with ⟨hmemo, -⟩ | ⟨source, hsource, -, hmemo⟩
  · rw [hmemo] at hkey
    exact Or.inl hkey
  · rw [hmemo, List.lookup_cons] at hkey
    by_cases heq : key = memoKey source g.category
    · rw [heq, beq_self_eq_true] at hkey
      exact Or.inr ⟨(Option.some.inj hkey).symm, source, hsource, heq.symm⟩
    · rw [beq_false_of_ne heq] at hkey
      exact Or.inl hkey

/-- An answer for a name is remembered, unless the prefix is no text. -/
theorem lookup_source (h : g.Fresh after candidate) {source lead : String}
    (hsource : g.source? = some source) (hlead : g.before.prefixFor g.category = .ok lead) :
    after.memo.lookup (memoKey source g.category) = some candidate := by
  rcases h.memo with ⟨-, hfault⟩ | ⟨source', hsource', -, hmemo⟩
  · obtain ⟨fault, herror⟩ := hfault source hsource
    rw [hlead] at herror
    exact absurd herror (by simp)
  · obtain rfl : source = source' := Option.some.inj (hsource.symm.trans hsource')
    rw [hmemo, List.lookup_cons, beq_self_eq_true]

end Grant.Fresh

/-! ## Tables whose names differ -/

/-- A table of which the remembered identifiers are taken, and differ for different keys. -/
structure Apart (t : NameTable) : Prop where
  taken_of_lookup : ∀ {key candidate}, t.memo.lookup key = some candidate → candidate ∈ t.taken
  lookup_inj : ∀ {key key' candidate}, t.memo.lookup key = some candidate →
    t.memo.lookup key' = some candidate → key = key'

theorem apart_reset (t : NameTable) : t.reset.Apart where
  taken_of_lookup := by
    intro key candidate hkey
    cases hkey
  lookup_inj := by
    intro key key' candidate hkey
    cases hkey

theorem Apart.congr {t t' : NameTable} (h : t.Apart) (hmemo : t'.memo = t.memo)
    (htaken : t'.taken = t.taken) : t'.Apart where
  taken_of_lookup := by
    intro key candidate hkey
    rw [hmemo] at hkey
    rw [htaken]
    exact h.taken_of_lookup hkey
  lookup_inj := by
    intro key key' candidate hkey hkey'
    rw [hmemo] at hkey hkey'
    exact h.lookup_inj hkey hkey'

/-- A fresh identifier differs from all that is remembered. -/
theorem Grant.Fresh.apart {g : Grant} {after : NameTable} {candidate : String}
    (h : g.Fresh after candidate) (hbefore : g.before.Apart) : after.Apart where
  taken_of_lookup := by
    intro key c hkey
    rw [h.taken]
    rcases h.lookup_after hkey with hold | ⟨rfl, -⟩
    · exact List.mem_cons_of_mem _ (hbefore.taken_of_lookup hold)
    · exact List.mem_cons_self
  lookup_inj := by
    intro key key' c hkey hkey'
    rcases h.lookup_after hkey with hold | ⟨rfl, s, hs, rfl⟩
    · rcases h.lookup_after hkey' with hold' | ⟨rfl, -⟩
      · exact hbefore.lookup_inj hold hold'
      · exact absurd (hbefore.taken_of_lookup hold) h.not_mem_taken
    · rcases h.lookup_after hkey' with hold' | ⟨-, s', hs', rfl⟩
      · exact absurd (hbefore.taken_of_lookup hold') h.not_mem_taken
      · rw [Option.some.inj (hs.symm.trans hs')]

/-- A request for a name keeps the names apart, and what is remembered. -/
theorem Apart.name {t : NameTable} (h : t.Apart) (name : String) (category : Category) :
    (t.name name category).table.Apart ∧ ∀ key candidate, t.memo.lookup key = some candidate →
      (t.name name category).table.memo.lookup key = some candidate := by
  cases hmemo : t.memo.lookup (memoKey (t.meant name category) category) with
  | some candidate =>
    rw [(name_of_lookup_eq_some hmemo).2]
    exact ⟨h, fun _ _ hkey => hkey⟩
  | none =>
    obtain ⟨candidate, hfresh⟩ := name_fresh hmemo
    exact ⟨hfresh.apart h, fun _ _ hkey => hfresh.lookup_mono hkey⟩

/-- A request for a name that differs from all others keeps the names apart, and what is
    remembered. -/
theorem Apart.distinct {t : NameTable} (h : t.Apart) (name : String) (category : Category) :
    (t.distinct name category).table.Apart ∧
      (t.distinct name category).table.memo = t.memo := by
  obtain ⟨candidate, hfresh⟩ := distinct_fresh t name category
  exact ⟨hfresh.apart h, rfl⟩

/-! ## The invariant -/

/-- An answer that can be read off a table: its identifier is taken, and is remembered for the name
    that was meant, or for no name at all. -/
structure Grant.ReadOff (g : Grant) (t : NameTable) (candidate : String) : Prop where
  answer : g.answer = (t.prefixFor g.category).map (· ++ candidate)
  taken : candidate ∈ t.taken
  named : ∀ source, g.source? = some source → ∀ lead, t.prefixFor g.category = .ok lead →
    t.memo.lookup (memoKey source g.category) = some candidate
  unnamed : g.source? = none → ∀ key, t.memo.lookup key ≠ some candidate

/-- The identifier was free when the answer, or an equal one for the same name, was given. -/
def Grant.WasFree (g : Grant) (grants : List Grant) (candidate : String) : Prop :=
  ∃ g' ∈ grants, g'.key? = g.key? ∧ g'.answer = g.answer ∧ g'.before.isFree candidate = true

/-- Two answers for one name are equal. -/
def Grant.Agree (a b : Grant) : Prop :=
  a.key? ≠ none → a.key? = b.key? → a.answer = b.answer

/-- Two answers that are not for one name, but have one prefix, differ. -/
def Grant.Differ (t : NameTable) (a b : Grant) : Prop :=
  (a.key? = none ∨ a.key? ≠ b.key?) → t.prefixFor a.category = t.prefixFor b.category →
    ∀ emitted, a.answer = .ok emitted → b.answer ≠ .ok emitted

/-- What the answers so far and the table have in common, for a table that began as `t`. -/
structure History.Inv (t : NameTable) (h : History) : Prop where
  variablePrefix : h.table.variablePrefix? = t.variablePrefix?
  apart : h.table.Apart
  readOff : ∀ g ∈ h.grants, ∃ candidate, g.ReadOff h.table candidate ∧ g.WasFree h.grants candidate
  remembered : ∀ {key candidate}, h.table.memo.lookup key = some candidate →
    ∃ g ∈ h.grants, ∃ source, g.source? = some source ∧ memoKey source g.category = key ∧
      g.answer = (h.table.prefixFor g.category).map (· ++ candidate) ∧
      g.before.isFree candidate = true
  differ : h.grants.Pairwise (Grant.Differ t)

/-! ## Consequences for two answers -/

/-- The memo key of an answer for a name depends on what the answer is remembered by only. -/
theorem memoKey_eq_of_key?_eq {a b : Grant} {s s' : String} (ha : a.source? = some s)
    (hb : b.source? = some s') (h : a.key? = b.key?) :
    memoKey s a.category = memoKey s' b.category ∧ a.category = b.category := by
  simp only [Grant.key?, ha, hb, Option.map_some, Option.some.injEq, Prod.mk.injEq] at h
  exact ⟨memoKey_inj.mpr h, h.2⟩

theorem key?_eq_of_memoKey_eq {a b : Grant} {s s' : String} (ha : a.source? = some s)
    (hb : b.source? = some s') (h : memoKey s a.category = memoKey s' b.category) :
    a.key? = b.key? := by
  obtain ⟨hlower, hcategory⟩ := memoKey_inj.mp h
  simp only [Grant.key?, ha, hb, Option.map_some, hlower, hcategory]

/-- Two answers for one name that are read off one table are equal. -/
theorem Grant.ReadOff.agree {t : NameTable} {a b : Grant} {c d : String} (ha : a.ReadOff t c)
    (hb : b.ReadOff t d) : a.Agree b := by
  intro hsome hkey
  cases hs : a.source? with
  | none => exact absurd (by rw [Grant.key?, hs]; rfl) hsome
  | some s =>
    cases hs' : b.source? with
    | none =>
      rw [hkey, Grant.key?, hs'] at hsome
      exact absurd rfl hsome
    | some s' =>
      obtain ⟨hmemoKey, hcategory⟩ := memoKey_eq_of_key?_eq hs hs' hkey
      rw [ha.answer, hb.answer, ← hcategory]
      cases hlead : t.prefixFor a.category with
      | error fault => rfl
      | ok lead =>
        have hc := ha.named s hs lead hlead
        have hd := hb.named s' hs' lead (hcategory ▸ hlead)
        rw [hmemoKey, hd, Option.some.injEq] at hc
        rw [hc]

/-- Answers with different identifiers behind one prefix differ. -/
theorem answer_ne_of_ne {t : NameTable} {a b : Grant} {c d : String}
    (ha : a.answer = (t.prefixFor a.category).map (· ++ c))
    (hb : b.answer = (t.prefixFor b.category).map (· ++ d))
    (hsame : t.prefixFor a.category = t.prefixFor b.category)
    (hne : ∀ lead, t.prefixFor a.category = .ok lead → c ≠ d) :
    ∀ emitted, a.answer = .ok emitted → b.answer ≠ .ok emitted := by
  intro emitted h h'
  rw [ha] at h
  rw [hb, ← hsame] at h'
  cases hlead : t.prefixFor a.category with
  | error fault =>
    rw [hlead] at h
    exact absurd h (by simp [Except.map])
  | ok lead =>
    rw [hlead] at h h'
    have h1 : lead ++ c = emitted := Except.ok.inj h
    have h2 : lead ++ d = emitted := Except.ok.inj h'
    have hlist := congrArg String.toList (h1.trans h2.symm)
    rw [String.toList_append, String.toList_append] at hlist
    exact hne lead hlead (String.toList_injective (List.append_cancel_left hlist))

/-! ## Answers read off a later table -/

theorem Grant.WasFree.mono {g : Grant} {grants : List Grant} {candidate : String}
    (h : g.WasFree grants candidate) (g' : Grant) : g.WasFree (grants ++ [g']) candidate := by
  obtain ⟨first, hmem, hrest⟩ := h
  exact ⟨first, List.mem_append_left _ hmem, hrest⟩

/-- A fresh answer leaves all that could be read off the table. -/
theorem Grant.ReadOff.fresh {g g' : Grant} {after : NameTable} {c candidate : String}
    (h : g.ReadOff g'.before c) (hfresh : g'.Fresh after candidate) : g.ReadOff after c where
  answer := by rw [prefixFor_congr hfresh.variablePrefix, h.answer]
  taken := by
    rw [hfresh.taken]
    exact List.mem_cons_of_mem _ h.taken
  named := by
    intro source hsource lead hlead
    rw [prefixFor_congr hfresh.variablePrefix] at hlead
    exact hfresh.lookup_mono (h.named source hsource lead hlead)
  unnamed := by
    intro hsource key hkey
    rcases hfresh.lookup_after hkey with hbefore | ⟨rfl, -⟩
    · exact h.unnamed hsource key hbefore
    · exact hfresh.not_mem_taken h.taken

namespace History

variable {t : NameTable} {h : History}

theorem lookup_start (t : NameTable) (key : String) :
    (start t).table.memo.lookup key = none :=
  rfl

theorem inv_start (t : NameTable) : (start t).Inv t where
  variablePrefix := rfl
  apart := apart_reset t
  readOff := by
    intro g hg
    exact absurd hg List.not_mem_nil
  remembered := by
    intro key candidate hkey
    rw [lookup_start] at hkey
    exact absurd hkey (by simp)
  differ := List.Pairwise.nil

/-- An answer off the memo keeps the invariant. -/
theorem Inv.recall (hinv : h.Inv t) {g : Grant} {source candidate : String}
    (hsource : g.source? = some source)
    (hmemo : h.table.memo.lookup (memoKey source g.category) = some candidate)
    (hanswer : g.answer = (h.table.prefixFor g.category).map (· ++ candidate)) :
    Inv t ⟨h.grants ++ [g], h.table⟩ where
  variablePrefix := hinv.variablePrefix
  apart := hinv.apart
  readOff := by
    intro g' hg'
    rcases List.mem_append.mp hg' with hold | hnew
    · obtain ⟨c, hread, hfree⟩ := hinv.readOff g' hold
      exact ⟨c, hread, hfree.mono g⟩
    · rw [List.mem_singleton.mp hnew]
      refine ⟨candidate, ⟨hanswer, hinv.apart.taken_of_lookup hmemo, ?_, ?_⟩, ?_⟩
      · intro source' hsource' lead hlead
        rwa [← Option.some.inj (hsource.symm.trans hsource')]
      · intro hnone
        rw [hsource] at hnone
        exact absurd hnone (by simp)
      · obtain ⟨first, hfirst, source', hsource', hkey, hanswer', hfree⟩ := hinv.remembered hmemo
        have hkey' := key?_eq_of_memoKey_eq hsource' hsource hkey
        refine ⟨first, List.mem_append_left _ hfirst, hkey', ?_, hfree⟩
        rw [hanswer', hanswer, (memoKey_inj.mp hkey).2]
  remembered := by
    intro key c hkey
    obtain ⟨first, hfirst, hrest⟩ := hinv.remembered hkey
    exact ⟨first, List.mem_append_left _ hfirst, hrest⟩
  differ := by
    rw [List.pairwise_append]
    refine ⟨hinv.differ, List.pairwise_singleton _ _, ?_⟩
    intro g' hold _ hnew hkey hsame
    obtain rfl := List.mem_singleton.mp hnew
    obtain ⟨c, hread, -⟩ := hinv.readOff g' hold
    rw [← prefixFor_congr hinv.variablePrefix, ← prefixFor_congr hinv.variablePrefix] at hsame
    refine answer_ne_of_ne hread.answer hanswer hsame ?_
    -- One identifier for both would be remembered under one key, so for one name.
    rintro lead hlead rfl
    cases hs : g'.source? with
    | none => exact hread.unnamed hs _ hmemo
    | some s =>
      have heq := hinv.apart.lookup_inj (hread.named s hs lead hlead) hmemo
      have hsame := key?_eq_of_memoKey_eq hs hsource heq
      rcases hkey with hnone | hne
      · rw [Grant.key?, hs] at hnone
        exact absurd hnone (by simp)
      · exact hne hsame

/-- A fresh answer keeps the invariant. -/
theorem Inv.fresh (hinv : h.Inv t) {g : Grant} {after : NameTable} {candidate : String}
    (hbefore : g.before = h.table) (hfresh : g.Fresh after candidate) :
    Inv t ⟨h.grants ++ [g], after⟩ where
  variablePrefix := by rw [hfresh.variablePrefix, hbefore, hinv.variablePrefix]
  apart := hfresh.apart (hbefore ▸ hinv.apart)
  readOff := by
    intro g' hg'
    rcases List.mem_append.mp hg' with hold | hnew
    · obtain ⟨c, hread, hfree⟩ := hinv.readOff g' hold
      rw [← hbefore] at hread
      exact ⟨c, hread.fresh hfresh, hfree.mono g⟩
    · obtain rfl := List.mem_singleton.mp hnew
      refine ⟨candidate, ⟨?_, ?_, ?_, ?_⟩, g', List.mem_append_right _ hnew, rfl, rfl, hfresh.isFree⟩
      · rw [prefixFor_congr hfresh.variablePrefix, hfresh.answer]
      · rw [hfresh.taken]
        exact List.mem_cons_self
      · intro source hsource lead hlead
        rw [prefixFor_congr hfresh.variablePrefix] at hlead
        exact hfresh.lookup_source hsource hlead
      · intro hnone key hkey
        rcases hfresh.lookup_after hkey with hold | ⟨-, source, hsource, -⟩
        · rw [hbefore] at hold
          have htaken := hfresh.not_mem_taken
          rw [hbefore] at htaken
          exact htaken (hinv.apart.taken_of_lookup hold)
        · rw [hnone] at hsource
          exact absurd hsource (by simp)
  remembered := by
    intro key c hkey
    rcases hfresh.lookup_after hkey with hold | ⟨rfl, source, hsource, hsame⟩
    · rw [hbefore] at hold
      obtain ⟨first, hfirst, source, hsource, hsame, hanswer, hfree⟩ := hinv.remembered hold
      refine ⟨first, List.mem_append_left _ hfirst, source, hsource, hsame, ?_, hfree⟩
      rw [prefixFor_congr hfresh.variablePrefix, hbefore, hanswer]
    · refine ⟨g, List.mem_append_right _ (List.mem_singleton.mpr rfl), source, hsource, hsame, ?_,
        hfresh.isFree⟩
      rw [prefixFor_congr hfresh.variablePrefix, hfresh.answer]
  differ := by
    rw [List.pairwise_append]
    refine ⟨hinv.differ, List.pairwise_singleton _ _, ?_⟩
    intro g' hold _ hnew _ hsame
    obtain rfl := List.mem_singleton.mp hnew
    obtain ⟨c, hread, -⟩ := hinv.readOff g' hold
    have hanswer := hfresh.answer
    rw [hbefore] at hanswer
    rw [← prefixFor_congr hinv.variablePrefix, ← prefixFor_congr hinv.variablePrefix] at hsame
    refine answer_ne_of_ne hread.answer hanswer hsame ?_
    rintro lead - rfl
    have htaken := hfresh.not_mem_taken
    rw [hbefore] at htaken
    exact htaken hread.taken

/-- A request without an answer that leaves the names alone keeps the invariant. -/
theorem Inv.sameNames (hinv : h.Inv t) {after : NameTable} (hmemo : after.memo = h.table.memo)
    (htaken : after.taken = h.table.taken)
    (hsame : after.variablePrefix? = h.table.variablePrefix?) : Inv t ⟨h.grants, after⟩ where
  variablePrefix := by rw [hsame, hinv.variablePrefix]
  apart := hinv.apart.congr hmemo htaken
  readOff := by
    intro g hg
    obtain ⟨c, hread, hfree⟩ := hinv.readOff g hg
    refine ⟨c, ⟨?_, htaken ▸ hread.taken, ?_, hmemo ▸ hread.unnamed⟩, hfree⟩
    · rw [prefixFor_congr hsame, hread.answer]
    · intro source hsource lead hlead
      rw [prefixFor_congr hsame] at hlead
      rw [hmemo]
      exact hread.named source hsource lead hlead
  remembered := by
    intro key candidate hkey
    rw [hmemo] at hkey
    obtain ⟨g, hg, source, hsource, hmeant, hanswer, hfree⟩ := hinv.remembered hkey
    refine ⟨g, hg, source, hsource, hmeant, ?_, hfree⟩
    rw [prefixFor_congr hsame, hanswer]
  differ := hinv.differ

/-! ## Runs -/

/-- Every request keeps the invariant. -/
theorem Inv.step (hinv : h.Inv t) (request : Request) : (h.step request).Inv t := by
  cases request with
  | name name category =>
    cases hmemo : h.table.memo.lookup (memoKey (h.table.meant name category) category) with
    | some candidate =>
      obtain ⟨hanswer, htable⟩ := name_of_lookup_eq_some hmemo
      rw [History.step, htable]
      exact hinv.recall rfl hmemo hanswer
    | none =>
      obtain ⟨candidate, hfresh⟩ := name_fresh hmemo
      exact hinv.fresh rfl hfresh
  | distinct name category =>
    obtain ⟨candidate, hfresh⟩ := distinct_fresh h.table name category
    exact hinv.fresh rfl hfresh
  | reserve words => exact hinv.sameNames rfl rfl rfl
  | setVariableNames names => exact hinv.sameNames rfl rfl rfl

theorem Inv.run (hinv : h.Inv t) (requests : List Request) : (h.run requests).Inv t := by
  induction requests generalizing h with
  | nil => exact hinv
  | cons request rest ih => exact ih (hinv.step request)

/-- Over any run of requests to a table that was just reset, the answers for one name are equal, all
    other answers with one prefix differ, and what stands behind the prefix was neither taken nor
    reserved when it was first handed out. -/
theorem run_answers (t : NameTable) (requests : List Request) :
    ((start t).run requests).grants.Pairwise Grant.Agree ∧
    ((start t).run requests).grants.Pairwise (Grant.Differ t) ∧
    ∀ g ∈ ((start t).run requests).grants, ∃ candidate,
      g.answer = (t.prefixFor g.category).map (· ++ candidate) ∧
      ∃ first ∈ ((start t).run requests).grants, first.key? = g.key? ∧ first.answer = g.answer ∧
        candidate ∉ first.before.taken ∧ candidate ∉ first.before.reserved := by
  have hinv := (inv_start t).run requests
  refine ⟨?_, hinv.differ, ?_⟩
  · rw [List.pairwise_iff_forall_sublist]
    intro a b hsub
    obtain ⟨c, hc, -⟩ := hinv.readOff a (hsub.subset (by simp))
    obtain ⟨d, hd, -⟩ := hinv.readOff b (hsub.subset (by simp))
    exact hc.agree hd
  · intro g hg
    obtain ⟨candidate, hread, first, hfirst, hkey, hanswer, hfree⟩ := hinv.readOff g hg
    refine ⟨candidate, ?_, first, hfirst, hkey, hanswer, isFree_eq_true_iff.mp hfree⟩
    rw [← prefixFor_congr hinv.variablePrefix, hread.answer]

end History

end BlockScript.NameTable
