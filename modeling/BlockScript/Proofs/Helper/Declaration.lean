/-
  BlockScript.Proofs.Helper.Declaration

  Texts that declare a function: perhaps comment lines, then the head of the function with its name
  and its parameters. A text declares one name at most. The text of a helper under an emitted name
  declares that name with the parameters of its routine, whatever the indent is.
-/
import BlockScript.Proofs.Comment.Lines
import BlockScript.Proofs.Generate.Congruence

namespace BlockScript

open Text (IsCommentLine IsCommentText)
open Script (isName)

/-- A text that declares a function of a name with parameters. -/
def Declares (text name : String) (parameters : List String) : Prop :=
  ∃ comments body, IsCommentText comments.toList ∧
    text = comments ++ Site.procedureHead name parameters ++ body

/-! ## One name -/

/-- A text is split at the first character of a sort in one way. -/
theorem append_cons_inj {c : Char} {l l' r r' : List Char} (hl : c ∉ l) (hl' : c ∉ l')
    (h : l ++ c :: r = l' ++ c :: r') : l = l' ∧ r = r' := by
  induction l generalizing l' with
  | nil =>
    cases l' with
    | nil => exact ⟨rfl, (List.cons.inj h).2⟩
    | cons d rest' =>
      obtain ⟨rfl, -⟩ := List.cons.inj h
      exact absurd List.mem_cons_self hl'
  | cons d rest ih =>
    cases l' with
    | nil =>
      obtain ⟨rfl, -⟩ := List.cons.inj h
      exact absurd List.mem_cons_self hl
    | cons d' rest' =>
      obtain ⟨rfl, hbehind⟩ := List.cons.inj h
      obtain ⟨rfl, hrest⟩ := ih (fun hc => hl (List.mem_cons_of_mem d hc))
        (fun hc => hl' (List.mem_cons_of_mem d hc)) hbehind
      exact ⟨rfl, hrest⟩

/-- A comment line does not begin as a function does. -/
theorem not_comment_eq_function {line s t : List Char} (h : IsCommentLine line) :
    line ++ s ≠ 'f' :: t := by
  obtain ⟨indentation, text, rfl, hindentation, -⟩ := h
  intro heq
  cases indentation with
  | nil => exact absurd (List.cons.inj heq).1 (by decide)
  | cons c rest =>
    obtain rfl : c = 'f' := (List.cons.inj heq).1
    exact absurd (hindentation 'f' List.mem_cons_self) (by decide)

/-- What follows the comment lines of a text is the same, however these are told apart. -/
theorem behind_comments_unique {s s' t t' : List Char} (hs : IsCommentText s) (hs' : IsCommentText s')
    (h : s ++ 'f' :: t = s' ++ 'f' :: t') : t = t' := by
  obtain ⟨comments, hcomments, rfl⟩ := hs
  obtain ⟨comments', hcomments', rfl⟩ := hs'
  induction comments generalizing comments' with
  | nil =>
    cases comments' with
    | nil => exact (List.cons.inj h).2
    | cons line' rest' =>
      rw [List.flatMap_cons, List.append_assoc, List.append_assoc] at h
      exact absurd h.symm (not_comment_eq_function (hcomments' line' List.mem_cons_self))
  | cons line rest ih =>
    cases comments' with
    | nil =>
      rw [List.flatMap_cons, List.append_assoc, List.append_assoc] at h
      exact absurd h (not_comment_eq_function (hcomments line List.mem_cons_self))
    | cons line' rest' =>
      simp only [List.flatMap_cons, List.append_assoc, List.singleton_append] at h
      have hbehind := (append_cons_inj (hcomments line List.mem_cons_self).not_mem
        (hcomments' line' List.mem_cons_self).not_mem h).2
      exact ih (fun l hl => hcomments l (List.mem_cons_of_mem line hl)) rest'
        (fun l hl => hcomments' l (List.mem_cons_of_mem line' hl)) hbehind

theorem not_mem_of_isName {name : String} (h : isName name.toList = true) {c : Char}
    (hc : Literal.isWordChar c = false) : c ∉ name.toList := by
  obtain ⟨first, rest, heq, -, hfirst, hrest⟩ := Script.isName_iff.mp h
  rw [heq]
  intro hmem
  rcases List.mem_cons.mp hmem with rfl | hmem
  · rw [hfirst] at hc
    cases hc
  · rw [hrest c hmem] at hc
    cases hc

/-- A text declares one name at most. -/
theorem Declares.name_eq {text name name' : String} {parameters parameters' : List String}
    (h : Declares text name parameters) (h' : Declares text name' parameters')
    (hname : isName name.toList = true) (hname' : isName name'.toList = true) : name = name' := by
  obtain ⟨comments, body, hcomments, rfl⟩ := h
  obtain ⟨comments', body', hcomments', heq⟩ := h'
  have hchars := congrArg String.toList heq
  have hhead : ∀ n ps, (Site.procedureHead n ps).toList =
      'f' :: ("unction ".toList ++ (n.toList ++ '(' :: (Text.join ", " ps ++ ") \x7b\n").toList)) := by
    intro n ps
    simp [Site.procedureHead]
  simp only [String.toList_append, List.append_assoc, hhead, List.cons_append] at hchars
  have hbehind := List.append_cancel_left (behind_comments_unique hcomments hcomments' hchars)
  have hopen : Literal.isWordChar '(' = false := by decide
  exact String.toList_injective
    (append_cons_inj (not_mem_of_isName hname hopen) (not_mem_of_isName hname' hopen) hbehind).1

/-! ## Helpers -/

/-- What stands ahead of the first character of a pattern is not replaced. -/
theorem replaceFrom_append {first : Char} {more s : List Char} (hs : first ∉ s)
    (replacement t : List Char) :
    Text.replaceFrom (first :: more) replacement 0 (s ++ t) =
      s ++ Text.replaceFrom (first :: more) replacement 0 t := by
  induction s with
  | nil => rfl
  | cons c rest ih =>
    rw [List.mem_cons, not_or] at hs
    obtain ⟨hc, hrest⟩ := hs
    have hnot : ¬ List.isPrefixOf (first :: more) (c :: (rest ++ t)) = true := by
      rw [List.isPrefixOf_cons_cons, beq_false_of_ne hc, Bool.false_and]
      exact Bool.false_ne_true
    rw [List.cons_append, Text.replaceFrom, if_neg hnot, ih hrest, List.cons_append]

/-- An occurrence of a pattern is replaced. -/
theorem replaceFrom_pattern (first : Char) (more replacement t : List Char) :
    Text.replaceFrom (first :: more) replacement 0 (first :: more ++ t) =
      replacement ++ Text.replaceFrom (first :: more) replacement 0 t := by
  have hfound : List.isPrefixOf (first :: more) (first :: (more ++ t)) = true :=
    List.isPrefixOf_iff_prefix.mpr (List.prefix_append (first :: more) t)
  rw [List.cons_append, Text.replaceFrom, if_pos hfound, Script.replaceFrom_drop]
  exact congrArg _ (congrArg _ List.drop_left)

/-- The characters of the head of a procedure. -/
theorem Site.toList_procedureHead (name : String) (parameters : List String) :
    (procedureHead name parameters).toList = "function ".toList ++ (name.toList ++
      ('(' :: (Text.join ", " parameters).toList ++ ") \x7b\n".toList)) := by
  simp [procedureHead]

namespace Routine

/-- The first line of a template is the head of the routine, under the mark for its name. -/
theorem template_eq (routine : Routine) : ∃ line lines,
    routine.template = ("function " ++ Helper.nameMark ++ "(" ++ Text.join ", " routine.parameters
      ++ ") \x7b") :: line :: lines := by
  cases routine with
  | randomLetter => exact ⟨_, _, by simp only [template, parameters, Text.join]; rfl⟩
  | subsequence start stop => exact ⟨_, _, rfl⟩
  | titleCase => exact ⟨_, _, rfl⟩
  | count => exact ⟨_, _, rfl⟩
  | replace => exact ⟨_, _, rfl⟩

/-- Parameters are written in the characters of words, commas and spaces. -/
theorem not_mem_parameters (routine : Routine) {c : Char}
    (hc : (Literal.isWordChar c || c = ',' || c = ' ') = false) :
    c ∉ (Text.join ", " routine.parameters).toList := by
  have hchecked : ∀ r ∈ all, (Text.join ", " r.parameters).toList.all
      (fun c => Literal.isWordChar c || c = ',' || c = ' ') = true := by
    decide +kernel
  intro hmem
  rw [List.all_eq_true.mp (hchecked routine routine.mem_all) c hmem] at hc
  cases hc

/-- Under an emitted name, too; the mark is looked for behind the head. -/
theorem instantiate_eq (routine : Routine) (emitted : String) : ∃ line lines,
    routine.template = ("function " ++ Helper.nameMark ++ "(" ++ Text.join ", " routine.parameters
      ++ ") \x7b") :: line :: lines ∧
    (Helper.instantiate routine.template emitted).toList =
      (Site.procedureHead emitted routine.parameters).toList ++
        Text.replaceFrom Helper.nameMark.toList emitted.toList 0
          (Text.join "\n" (line :: lines)).toList := by
  obtain ⟨line, lines, htemplate⟩ := routine.template_eq
  have hbody : (Text.join "\n" routine.template).toList =
      (Site.procedureHead Helper.nameMark routine.parameters).toList ++
        (Text.join "\n" (line :: lines)).toList := by
    rw [htemplate, Text.join, Site.procedureHead]
    simp only [String.toList_append, List.append_assoc]
    rfl
  obtain ⟨more, hmark⟩ : ∃ more, Helper.nameMark.toList = '\x7b' :: 'l' :: more := ⟨_, rfl⟩
  have hopen : '\x7b' ∉ '(' :: ((Text.join ", " routine.parameters).toList ++ [')', ' ']) := by
    simp only [List.mem_cons, List.mem_append, not_or, List.not_mem_nil]
    exact ⟨by decide, routine.not_mem_parameters (by decide), by decide, by decide, not_false⟩
  -- The brace at the end of the head is no mark.
  have hbrace : ∀ s, Text.replaceFrom ('\x7b' :: 'l' :: more) emitted.toList 0
      ('\x7b' :: '\n' :: s) =
        '\x7b' :: '\n' :: Text.replaceFrom ('\x7b' :: 'l' :: more) emitted.toList 0 s := by
    intro s
    have hfirst : ¬ List.isPrefixOf ('\x7b' :: 'l' :: more) ('\x7b' :: '\n' :: s) = true := by
      simp
    have hsecond : ¬ List.isPrefixOf ('\x7b' :: 'l' :: more) ('\n' :: s) = true := by
      simp
    rw [Text.replaceFrom, if_neg hfirst, Text.replaceFrom, if_neg hsecond]
  refine ⟨line, lines, htemplate, ?_⟩
  have hhead : ∀ name : String, (Site.procedureHead name routine.parameters).toList =
      "function ".toList ++ (name.toList ++
        ('(' :: ((Text.join ", " routine.parameters).toList ++ [')', ' ']) ++ ['\x7b', '\n'])) := by
    intro name
    rw [Site.toList_procedureHead]
    simp
  rw [Helper.instantiate, Text.replace, String.toList_ofList, hbody, hhead, hhead, hmark]
  simp only [List.append_assoc]
  rw [replaceFrom_append (by decide), replaceFrom_pattern, replaceFrom_append hopen]
  exact congrArg _ (congrArg _ (congrArg _ (hbrace _)))

end Routine

/-- The head of a procedure stays as it is in any indent. -/
theorem Helper.reindent_procedureHead {name : String} {parameters : List String} {text : String}
    {body : List Char} (hname : isName name.toList = true)
    (hbreak : '\n' ∉ (Text.join ", " parameters).toList)
    (hnull : '\x00' ∉ (Text.join ", " parameters).toList)
    (htext : text.toList = (Site.procedureHead name parameters).toList ++ body) (indent : String) :
    ∃ behind : List Char, (Helper.reindent indent text).toList =
      (Site.procedureHead name parameters).toList ++ behind := by
  obtain ⟨line, hline⟩ : ∃ line, line = 'f' :: ("unction ".toList ++ (name.toList ++
      ("(".toList ++ ((Text.join ", " parameters).toList ++ ") \x7b".toList)))) := ⟨_, rfl⟩
  have hhead : (Site.procedureHead name parameters).toList = line ++ ['\n'] := by
    rw [Site.toList_procedureHead, hline]
    simp
  have hplain : ∀ c, Literal.isWordChar c = false → c ∉ "function () \x7b".toList →
      c ∉ (Text.join ", " parameters).toList → c ∉ line := by
    intro c hword hmarks hparameters
    have hin := not_mem_of_isName hname hword
    rw [hline]
    simp_all
  have hbreak := hplain _ (by decide) (by decide) hbreak
  have hnull := hplain _ (by decide) (by decide) hnull
  have hkept : reindentLine indent.toList line = line := by
    have hlead : line.takeWhile (· = ' ') = [] ∧ line.dropWhile (· = ' ') = line := by
      rw [hline]
      exact ⟨List.takeWhile_cons_of_neg (by decide), List.dropWhile_cons_of_neg (by decide)⟩
    rw [Script.reindentLine_eq _ hnull, hlead.1, hlead.2]
    rfl
  by_cases hother : indent = "  "
  · rw [reindent, if_pos hother]
    exact ⟨body, htext⟩
  · -- The head is the first line, and another one comes behind it.
    have hmore : (Text.lines body).map (reindentLine indent.toList) ≠ [] := by
      rw [Ne, List.map_eq_nil_iff]
      exact Script.splitOn_ne_nil '\n' body
    refine ⟨Script.joinLines ((Text.lines body).map (reindentLine indent.toList)), ?_⟩
    rw [Script.toList_reindent_of_ne hother, htext, hhead, List.append_assoc, List.singleton_append,
      Text.lines_line hbreak, List.map_cons, hkept, Script.joinLines_cons hmore, List.append_assoc,
      List.singleton_append]

/-- The text of a routine under its emitted name begins with its head, in any indent. -/
theorem Routine.exists_body (routine : Routine) {emitted : String}
    (hname : isName emitted.toList = true) (indent : String) :
    ∃ body, Helper.reindent indent (Helper.instantiate routine.template emitted) =
      Site.procedureHead emitted routine.parameters ++ body := by
  obtain ⟨line, lines, -, hbody⟩ := routine.instantiate_eq emitted
  obtain ⟨behind, hbehind⟩ := Helper.reindent_procedureHead hname
    (routine.not_mem_parameters (by decide)) (routine.not_mem_parameters (by decide)) hbody indent
  refine ⟨String.ofList behind, ?_⟩
  apply String.toList_injective
  rw [hbehind, String.toList_append, String.toList_ofList]

/-- The text of a routine declares it under its emitted name, in any indent. -/
theorem Routine.declares (routine : Routine) {emitted : String}
    (hname : isName emitted.toList = true) (indent : String) :
    Declares (Helper.reindent indent (Helper.instantiate routine.template emitted)) emitted
      routine.parameters := by
  obtain ⟨body, hbody⟩ := routine.exists_body hname indent
  refine ⟨"", body, ⟨[], fun _ h => absurd h List.not_mem_nil, rfl⟩, ?_⟩
  rw [hbody, String.empty_append]

/-! ## Procedures -/

/-- Whole code has comment lines ahead. -/
theorem Site.complete_allows {o : Options} (site : Site) (code : String) :
    Gen.Allows o (fun _ => True) (site.complete code false) fun text => ∃ comments rest,
      IsCommentText comments.toList ∧ text = comments ++ code ++ rest := by
  rw [complete]
  have hcomments : Gen.Allows o (fun _ => True) site.comments (IsCommentText ·.toList) :=
    commentLaw.comments_allows (fun _ _ _ => trivial) fun _ _ _ _ _ _ => trivial
  refine hcomments.bind fun comments hlines => ?_
  refine (Gen.Allows.unknown _).bind fun next _ => ?_
  cases next with
  | statement rest => exact Gen.Allows.pure ⟨comments, rest, hlines, rfl⟩
  | expression text order => exact Gen.Allows.throw _

/-- The text of a procedure is what its head is completed to, with some body behind it. -/
theorem Site.procedureText_allows_of {o : Options} {Q : String → Prop} (site : Site) {name : String}
    (hcomplete : ∀ parameters body, Gen.Allows o (fun _ => True)
      (site.complete (procedureHead name parameters ++ body) false) Q) (o' : Options) :
    Gen.Allows o (fun _ => True) (site.procedureText o' name) Q := by
  refine (Gen.Allows.unknown _).bind fun lead _ => ?_
  refine (Gen.Allows.unknown _).bind fun tail _ => ?_
  refine (Gen.Allows.unknown _).bind fun hooks _ => ?_
  refine (Gen.Allows.unknown _).bind fun trap _ => ?_
  refine (Gen.Allows.unknown _).bind fun trap _ => ?_
  refine (Gen.Allows.unknown _).bind fun body _ => ?_
  refine (Gen.Allows.unknown _).bind fun value _ => ?_
  refine (Gen.Allows.unknown _).bind fun names _ => ?_
  refine (Gen.Allows.unknown _).bind fun parameters _ => ?_
  simp only [String.append_assoc]
  exact hcomplete parameters _

/-- The text of a procedure declares it under its emitted name. -/
theorem Site.procedureText_allows {o : Options} (site : Site) (o' : Options) (name : String) :
    Gen.Allows o (fun _ => True) (site.procedureText o' name) fun text =>
      ∃ parameters, Declares text name parameters := by
  apply site.procedureText_allows_of
  intro parameters body
  apply (site.complete_allows _).mono
  rintro _ ⟨comments, rest, hcomments, rfl⟩
  exact ⟨parameters, comments, body ++ rest, hcomments, by simp only [String.append_assoc]⟩

end BlockScript
