import Mathlib.Data.List.Forall2
import PacketBudget.Proofs.ReadBack

/-!
The layout of a configuration says nothing: how its lines end, which blanks stand around a line or
around the `=` of an assignment, and which blank lines and comments stand between the lines or
behind them. A text that is refused is refused for the same fault in every layout.
-/

namespace PacketBudget

open Text

/-- The text with a carriage return before every line feed. -/
def Text.withReturns (s : List Char) : List Char :=
  s.flatMap fun c => if c = '\n' then ['\r', '\n'] else [c]

/-- More blanks around a line, or around the first `=` of an assignment. -/
inductive Spaced : List Char → List Char → Prop
  | around {line a b : List Char} (before : Blank a) (behind : Blank b) :
      Spaced line (a ++ (line ++ b))
  | equals {left right a b key value : List Char} {group : Option (List Char)}
      (form : HasForm (left ++ '=' :: right) (.pair group key value)) (first : '=' ∉ left)
      (before : Blank a) (behind : Blank b) :
      Spaced (left ++ '=' :: right) (left ++ a ++ '=' :: (b ++ right))
  | trans {l m n : List Char} (first : Spaced l m) (next : Spaced m n) : Spaced l n

/-- More lines, all of them blank or comments. -/
inductive Padded : List (List Char) → List (List Char) → Prop
  | nil : Padded [] []
  | keep (line : List Char) {ls ms : List (List Char)} (more : Padded ls ms) :
      Padded (line :: ls) (line :: ms)
  | idle {line : List Char} {ls ms : List (List Char)} (form : HasForm line .blank)
      (more : Padded ls ms) : Padded ls (line :: ms)

/-- An assignment of a value that starts with a quote and has no second one. -/
def OpenQuoted (line : List Char) : Prop :=
  ∃ group key inner, HasForm line (.pair group key ('"' :: inner)) ∧ '"' ∉ inner

/-- The line itself, or with a comment behind it that no open quote takes for its own. -/
inductive Remarked (line : List Char) : List Char → Prop
  | same : Remarked line line
  | comment {b text : List Char} (closed : ¬ OpenQuoted line) (gap : Blank b) :
      Remarked line (line ++ (b ++ '#' :: text))

variable {l m b line left right key value : List Char} {group : Option (List Char)} {x : Line}

namespace Text

variable {text : List Char} {c : Char}

/-- The lines of the text with its carriage returns, which some of the lines end with. -/
theorem lines_withReturns (s : List Char) :
    List.Forall₂ (fun l m => m = l ∨ m = l ++ ['\r']) (lines s) (lines (withReturns s)) := by
  fun_induction lines s with
  | case1 => exact .cons (Or.inl rfl) .nil
  | case2 cs ih => exact .cons (Or.inr rfl) ih
  | case3 c cs _ hl => exact absurd hl (lines_ne_nil cs)
  | case4 c cs hc l ls hl ih =>
    have hs : withReturns (c :: cs) = c :: withReturns cs := by
      rw [withReturns, List.flatMap_cons, if_neg hc]
      rfl
    rw [hl] at ih
    rw [hs]
    cases hm : lines (withReturns cs) with
    | nil => exact absurd hm (lines_ne_nil _)
    | cons m ms =>
      rw [hm] at ih
      obtain ⟨hlm, hmore⟩ := List.forall₂_cons.mp ih
      have hcons : lines (c :: withReturns cs) = (c :: m) :: ms := by
        rw [lines, hm]
        exact hc
      rw [hcons]
      refine .cons ?_ hmore
      rcases hlm with rfl | rfl
      · exact Or.inl rfl
      · exact Or.inr rfl

/-- What is behind a `c` is no part of what stands before the first. -/
theorem trim_before_mark (hc : isBlank c = false) (hb : Blank b) (s text : List Char) :
    trim (before c (s ++ (b ++ c :: text))) = trim (before c s) := by
  obtain ⟨rest, hs, hn, hr⟩ := exists_before c s
  generalize before c s = y at hs hn
  subst hs
  cases rest with
  | nil =>
    have hnb : c ∉ y ++ b := List.not_mem_append hn (hb.not_mem hc)
    rw [List.append_nil, ← List.append_assoc, before_append hnb (endsAt_cons c text),
      trim_append_right hb]
  | cons d ds =>
    obtain rfl := hr d rfl
    rw [List.append_assoc, List.cons_append, before_append hn (endsAt_cons d _)]

end Text

namespace Line

/-- The blanks behind a left side are no part of its names. -/
theorem named_append (hb : Blank b) (left : List Char) : named (left ++ b) = named left := by
  rw [← named_trim, trim_append_right hb, named_trim]

end Line

/-- An assignment stays the same with more blanks around its first `=`. -/
theorem HasForm.spaced {a : List Char}
    (form : HasForm (left ++ '=' :: right) (.pair group key value))
    (first : '=' ∉ left) (ha : Blank a) (hb : Blank b) :
    HasForm (left ++ a ++ '=' :: (b ++ right)) (.pair group key value) := by
  generalize hl : left ++ '=' :: right = line at form
  cases form with
  | @assignment p left' right' key group indent start first' names =>
    have hp : '=' ∉ p ++ left' := List.not_mem_append (indent.not_mem (by decide)) first'
    have hcut := cut?_append first right
    rw [hl, ← List.append_assoc, cut?_append hp] at hcut
    cases hcut
    rw [← trim_append_left hb]
    cases left' with
    | nil =>
      rw [List.append_nil]
      exact @HasForm.assignment (p ++ a) [] _ _ _ (indent.append ha) nofun nofun names
    | cons c cs =>
      have hnames : Names (c :: cs ++ a) group key := by
        rw [Line.names_iff, Line.named_append ha]
        exact Line.names_iff.mp names
      have hfirst : '=' ∉ c :: cs ++ a := List.not_mem_append first' (ha.not_mem (by decide))
      rw [List.append_assoc p, List.append_assoc p]
      exact .assignment indent start hfirst hnames

/-- More blanks say nothing, whether the line is accepted or not. -/
theorem Spaced.read_eq (h : Spaced l m) : Line.read m = Line.read l := by
  induction h with
  | around before behind => rw [Line.read, trim_append before behind, Line.read]
  | equals form first before behind =>
    rw [Line.read_of_form (form.spaced first before behind), Line.read_of_form form]
  | trans first next ih ih' => exact ih'.trans ih

/-- A comment behind a value is no part of it. -/
theorem stripComment_remark (hb : Blank b)
    (closed : ∀ inner, stripComment (trim right) = '"' :: inner → '"' ∈ inner) (text : List Char) :
    stripComment (trim (right ++ (b ++ '#' :: text))) = stripComment (trim right) := by
  obtain ⟨p, q, hp, hq, hr, htight⟩ := exists_trim right
  by_cases hquote : (trim right).head? = some '"'
  · obtain ⟨v, hv⟩ := List.head?_eq_some_iff.mp hquote
    rw [hv] at hr closed ⊢
    cases hc : cut? '"' v with
    | none =>
      have hopen : stripComment ('"' :: v) = '"' :: v := by simp only [stripComment, hc]
      exact absurd (closed v hopen) (cut?_eq_none_iff.mp hc)
    | some parts =>
      obtain ⟨quoted, rest⟩ := parts
      obtain ⟨rfl, hn⟩ := eq_append_of_cut? hc
      have hvalue : stripComment ('"' :: (quoted ++ '"' :: rest)) = '"' :: quoted ++ ['"'] := by
        simp only [stripComment, hc]
      have hs := stripComment_quoted hp hn (rest ++ q ++ (b ++ '#' :: text))
      rw [hr, hvalue]
      simpa only [List.append_assoc, List.cons_append, List.nil_append] using hs
  · -- The text does not start with a quote: at its front is what was there, or the `#`.
    have hhead : (trim (right ++ (b ++ '#' :: text))).head? ≠ some '"' := by
      intro hh
      generalize trim right = t at hr htight hquote
      subst hr
      cases t with
      | nil =>
        obtain ⟨t', -, -, -, ht⟩ := exists_trim_cons ((hp.append hq).append hb)
          (show isBlank '#' = false by decide) text
        rw [List.nil_append, ← List.append_assoc, ht] at hh
        cases hh
      | cons c cs =>
        obtain ⟨t', -, -, -, ht⟩ := exists_trim_cons hp (htight.head c rfl)
          (cs ++ q ++ (b ++ '#' :: text))
        rw [List.append_assoc, List.cons_append, List.cons_append, ht] at hh
        exact hquote hh
    rw [stripComment_of_head hquote, stripComment_of_head hhead, trim_before_trim (by decide),
      trim_before_trim (by decide), trim_before_mark (by decide) hb]

/-- A comment behind a line says nothing. -/
theorem HasForm.remarked (form : HasForm line x) (closed : ¬ OpenQuoted line) (hb : Blank b)
    (text : List Char) : HasForm (line ++ (b ++ '#' :: text)) x := by
  cases form with
  | blank blank =>
    rw [← List.append_assoc]
    exact .comment (blank.append hb)
  | comment indent =>
    rw [List.append_assoc, List.cons_append]
    exact .comment indent
  | @header a b' name rest indent plain behind comment =>
    cases rest with
    | nil =>
      have h : HasForm (a ++ '[' :: (name ++ ']' :: (b' ++ b ++ '#' :: text)))
          (.header (trim name)) :=
        .header indent plain (behind.append hb) (endsAt_cons '#' text)
      simpa only [List.append_assoc, List.cons_append, List.append_nil] using h
    | cons c cs =>
      obtain rfl := comment c rfl
      have h : HasForm (a ++ '[' :: (name ++ ']' :: (b' ++ '#' :: (cs ++ (b ++ '#' :: text)))))
          (.header (trim name)) := .header indent plain behind (endsAt_cons '#' _)
      simpa only [List.append_assoc, List.cons_append] using h
  | @assignment a left right key group indent start first names =>
    have hvalue : ∀ inner, stripComment (trim right) = '"' :: inner → '"' ∈ inner := by
      intro inner hi
      by_contra hn
      refine closed ⟨group, key, inner, ?_, hn⟩
      rw [← hi]
      exact .assignment indent start first names
    rw [← stripComment_remark hb hvalue text, List.append_assoc, List.append_assoc,
      List.cons_append]
    exact .assignment indent start first names

namespace Reading

variable {r r' : Reading} {n : Nat} {ls ms : List (List Char)} {f : ConfigFault}

/-- A line has no part in a reading beyond what it says. -/
theorem line_congr (h : Line.read m = Line.read l) : r.line m = r.line l := by
  rw [Reading.line, h, Reading.line]

theorem lines_spaced (h : List.Forall₂ Spaced ls ms) (r : Reading) (n : Nat) :
    r.lines n ms = r.lines n ls := by
  induction h generalizing r n with
  | nil => rfl
  | cons hlm hmore ih =>
    rw [Reading.lines, line_congr hlm.read_eq, Reading.lines]
    simp only [ih]

/-- A line that is accepted may have a comment behind it. -/
theorem line_remarked (h : r.line l = .ok r') (hr : Remarked l m) : r.line m = .ok r' := by
  cases hr with
  | same => exact h
  | @comment b text closed gap =>
    have hread : Line.read (l ++ (b ++ '#' :: text)) = Line.read l := by
      cases hl : Line.read l with
      | error f =>
        rw [Reading.line, hl] at h
        cases h
      | ok x => exact Line.read_of_form ((Line.form_of_read hl).remarked closed gap text)
    rw [line_congr hread]
    exact h

theorem lines_remarked (hr : List.Forall₂ Remarked ls ms) (h : r.lines n ls = .ok r') :
    r.lines n ms = .ok r' := by
  induction hr generalizing r n with
  | nil => exact h
  | cons hlm hmore ih =>
    obtain ⟨r₁, hl, hls⟩ := exists_of_lines_cons h
    rw [Reading.lines, line_remarked hl hlm]
    exact ih hls

theorem lines_padded (h : Padded ls ms) (hl : r.lines n ls = .ok r') (k : Nat) :
    r.lines k ms = .ok r' := by
  induction h generalizing r n k with
  | nil => exact hl
  | keep line more ih =>
    obtain ⟨r₁, hr, hls⟩ := exists_of_lines_cons hl
    rw [Reading.lines, hr]
    exact ih hls (k + 1)
  | idle form more ih =>
    rw [Reading.lines, line_of_blank form]
    exact ih hl (k + 1)

/-- The fault is that of the same line, with the number that it has among the others. -/
theorem lines_padded_error (h : Padded ls ms) (hl : r.lines n ls = .error f) (k : Nat) :
    ∃ pre line post pre' post', ls = pre ++ line :: post ∧ ms = pre' ++ line :: post' ∧
      Padded pre pre' ∧ Padded post post' ∧ f.line = n + pre.length ∧
      r.lines k ms = .error ⟨k + pre'.length, f.cause⟩ := by
  induction h generalizing r n k with
  | nil => cases hl
  | @keep line ls ms more ih =>
    rw [Reading.lines] at hl
    cases hr : r.line line with
    | error cause =>
      rw [hr] at hl
      cases hl
      refine ⟨[], line, ls, [], ms, rfl, rfl, .nil, more, rfl, ?_⟩
      rw [Reading.lines, hr]
      rfl
    | ok r₁ =>
      rw [hr] at hl
      obtain ⟨pre, l, post, pre', post', rfl, rfl, hpre, hpost, hn, hms⟩ := ih hl (k + 1)
      refine ⟨line :: pre, l, post, line :: pre', post', rfl, rfl, .keep line hpre, hpost, ?_, ?_⟩
      · rw [hn, List.length_cons]
        omega
      · rw [Reading.lines, hr, List.length_cons, Nat.add_comm pre'.length, ← Nat.add_assoc]
        exact hms
  | @idle line ls ms form more ih =>
    obtain ⟨pre, l, post, pre', post', rfl, rfl, hpre, hpost, hn, hms⟩ := ih hl (k + 1)
    refine ⟨pre, l, post, line :: pre', post', rfl, rfl, .idle form hpre, hpost, hn, ?_⟩
    rw [Reading.lines, line_of_blank form, List.length_cons, Nat.add_comm pre'.length,
      ← Nat.add_assoc]
    exact hms

end Reading

namespace Config

/-- Texts with the same lines, but for more blanks, are read alike. -/
theorem read_spaced {text text' : String}
    (h : List.Forall₂ Spaced (lines text.toList) (lines text'.toList)) :
    Config.read text' = Config.read text := by
  rw [Config.read, Reading.lines_spaced h, Config.read]

theorem read_withReturns (text : String) :
    Config.read (String.ofList (withReturns text.toList)) = Config.read text := by
  apply read_spaced
  rw [String.toList_ofList]
  refine (lines_withReturns text.toList).imp fun l m hm => ?_
  have hblank : Blank ['\r'] := List.forall_mem_singleton.mpr rfl
  rcases hm with rfl | rfl
  · have h : Spaced m ([] ++ (m ++ [])) := .around nofun nofun
    rwa [List.append_nil] at h
  · exact .around (a := []) nofun hblank

theorem read_padded {text text' : String} {c : Config}
    (h : Padded (lines text.toList) (lines text'.toList)) (hc : Config.read text = .ok c) :
    Config.read text' = .ok c := by
  obtain ⟨r, hr, rfl⟩ := exists_of_read hc
  rw [Config.read, Reading.lines_padded h hr 1]
  rfl

theorem read_remarked {text text' : String} {c : Config}
    (h : List.Forall₂ Remarked (lines text.toList) (lines text'.toList))
    (hc : Config.read text = .ok c) : Config.read text' = .ok c := by
  obtain ⟨r, hr, rfl⟩ := exists_of_read hc
  rw [Config.read, Reading.lines_remarked h hr]
  rfl

/-- Carriage returns, blanks around lines and blanks around the first `=` of assignments leave the
configuration of a text, or its fault, as it is. Blank lines and comments between the lines leave
the configuration, or the fault but for the number of its line, which is the one that this line has
now. Comments behind the lines of a text that is accepted leave its configuration, unless a quote is
open. -/
theorem layout_says_nothing :
    (∀ text : String,
      Config.read (String.ofList (withReturns text.toList)) = Config.read text) ∧
    (∀ text text' : String, List.Forall₂ Spaced (lines text.toList) (lines text'.toList) →
      Config.read text' = Config.read text) ∧
    (∀ text text' : String, Padded (lines text.toList) (lines text'.toList) →
      (∀ c, Config.read text = .ok c → Config.read text' = .ok c) ∧
      ∀ f, Config.read text = .error f →
        ∃ pre line post pre' post', lines text.toList = pre ++ line :: post ∧
          lines text'.toList = pre' ++ line :: post' ∧ Padded pre pre' ∧ Padded post post' ∧
          f.line = pre.length + 1 ∧ Config.read text' = .error ⟨pre'.length + 1, f.cause⟩) ∧
    ∀ (text text' : String) (c : Config),
      List.Forall₂ Remarked (lines text.toList) (lines text'.toList) →
      Config.read text = .ok c → Config.read text' = .ok c := by
  refine ⟨read_withReturns, fun text text' h => read_spaced h, fun text text' h => ⟨?_, ?_⟩,
    fun text text' c h => read_remarked h⟩
  · intro c hc
    exact read_padded h hc
  · intro f hf
    obtain ⟨pre, line, post, pre', post', hls, hms, hpre, hpost, hn, herror⟩ :=
      Reading.lines_padded_error h (lines_of_read hf) 1
    refine ⟨pre, line, post, pre', post', hls, hms, hpre, hpost, by omega, ?_⟩
    rw [Config.read, herror, Nat.add_comm 1]
    rfl

/-- A text with a fault on its second line in four layouts, and one without in two. -/
theorem layout_says_nothing_of_six_layouts :
    let wrong := "[net]\nmax_frame_bytes=4x"
    let right := "[service]\nname=\"a # b\""
    ∃ f c, Config.read wrong = .error f ∧ f.line = 2 ∧ Config.read right = .ok c ∧
      Config.read "[net]\r\nmax_frame_bytes=4x" = .error f ∧
      Config.read "\t[net] \nmax_frame_bytes = \t4x" = .error f ∧
      (∃ n, Config.read "# first\n[net]\n \nmax_frame_bytes=4x" = .error ⟨n, f.cause⟩) ∧
      Config.read "[service]#one\nname=\"a # b\" #\"two\"" = .ok c := by
  intro wrong right
  have hwrong : Config.read wrong = .error ⟨2, .badNumeral "max_frame_bytes" .badDigit⟩ := by
    unfold wrong
    rfl
  have hright : Config.read right = .ok { serviceName := "a # b" } := by
    unfold right
    rfl
  have blank : Blank [' '] := gap_space.blank
  have tab : Blank ['\t'] := List.forall_mem_singleton.mpr rfl
  have header : HasForm "[service]".toList (.header "service".toList) := Line.form_of_read rfl
  have number : HasForm "max_frame_bytes=4x".toList
      (.pair none "max_frame_bytes".toList "4x".toList) := Line.form_of_read rfl
  have name : HasForm "name=\"a # b\"".toList (.pair none "name".toList "\"a # b\"".toList) :=
    Line.form_of_read rfl
  have spaced : List.Forall₂ Spaced (lines wrong.toList)
      (lines "\t[net] \nmax_frame_bytes = \t4x".toList) := by
    unfold wrong
    show List.Forall₂ Spaced ["[net]".toList, "max_frame_bytes".toList ++ '=' :: "4x".toList]
      ["\t[net] ".toList, "max_frame_bytes = \t4x".toList]
    refine .cons (.around tab blank) (.cons ?_ .nil)
    exact .equals number (by decide) blank (blank.append tab)
  have padded : Padded (lines wrong.toList)
      (lines "# first\n[net]\n \nmax_frame_bytes=4x".toList) := by
    unfold wrong
    exact .idle (.comment (a := []) nofun) (.keep _ (.idle (.blank blank) (.keep _ .nil)))
  have remarked : List.Forall₂ Remarked (lines right.toList)
      (lines "[service]#one\nname=\"a # b\" #\"two\"".toList) := by
    unfold right
    show List.Forall₂ Remarked ["[service]".toList, "name=\"a # b\"".toList]
      ["[service]#one".toList, "name=\"a # b\" #\"two\"".toList]
    refine .cons ?_ (.cons ?_ .nil)
    · refine .comment (b := []) ?_ nofun
      rintro ⟨_, _, _, form, -⟩
      cases form.unique header
    · refine .comment ?_ blank
      rintro ⟨_, _, _, form, hn⟩
      cases form.unique name
      exact hn (by decide)
  have returned : String.ofList (withReturns wrong.toList) = "[net]\r\nmax_frame_bytes=4x" := by
    unfold wrong
    rfl
  obtain ⟨hreturns, hspaced, hpadded, hremarked⟩ := layout_says_nothing
  obtain ⟨-, -, -, pre', -, -, -, -, -, -, hpad⟩ := (hpadded _ _ padded).2 _ hwrong
  rw [← returned]
  exact ⟨_, _, hwrong, rfl, hright, (hreturns wrong).trans hwrong,
    (hspaced _ _ spaced).trans hwrong, ⟨_, hpad⟩, hremarked _ _ _ remarked hright⟩

end Config

end PacketBudget
