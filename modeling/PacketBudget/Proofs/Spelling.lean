import PacketBudget.Config.Writer
import PacketBudget.Proofs.LineByLine

/-!
Lines as they are written. A text that is put together from lines is read as these lines, a header
that is written names its group, and an assignment may have blanks around its `=` and a comment
behind its value.
-/

namespace PacketBudget

namespace Text

variable {b s rest x : List Char} {c : Char}

/-- A text made of lines has these lines. -/
theorem lines_joined {ls : List (List Char)} (hne : ls ≠ []) (h : ∀ l ∈ ls, '\n' ∉ l) :
    lines (ls.intersperse ['\n']).flatten = ls := by
  induction ls with
  | nil => exact absurd rfl hne
  | cons l ls ih =>
    obtain ⟨hl, hls⟩ := List.forall_mem_cons.mp h
    cases ls with
    | nil =>
      rw [List.intersperse_singleton, List.flatten_singleton]
      exact lines_of_not_mem hl
    | cons m ls =>
      rw [List.intersperse_cons_cons, List.flatten_cons, List.flatten_cons, List.singleton_append,
        lines_append, lines_of_not_mem hl, ih (by simp) hls]
      rfl

/-- A line has no line feed in it. -/
theorem not_mem_of_mem_lines {l : List Char} (h : l ∈ lines s) : '\n' ∉ l := by
  fun_induction lines s generalizing l with
  | case1 =>
    obtain rfl := List.mem_singleton.mp h
    exact List.not_mem_nil
  | case2 cs ih =>
    rcases List.mem_cons.mp h with rfl | h
    · exact List.not_mem_nil
    · exact ih h
  | case3 c cs _ hl => exact absurd hl (lines_ne_nil cs)
  | case4 c cs hc m ls hl ih =>
    rw [hl] at ih
    rcases List.mem_cons.mp h with rfl | h
    · rw [List.mem_cons, not_or]
      exact ⟨fun he => hc he.symm, ih List.mem_cons_self⟩
    · exact ih (List.mem_cons_of_mem m h)

theorem mem_of_cut? {c d : Char} {a : List Char} (h : cut? c s = some (a, b)) (hd : d ∈ b) :
    d ∈ s := by
  obtain ⟨rfl, -⟩ := eq_append_of_cut? h
  exact List.mem_append_right _ (List.mem_cons_of_mem _ hd)

/-- Blanks around a text are no part of what stands before `c`. -/
theorem trim_before_trim (hc : isBlank c = false) (s : List Char) :
    trim (before c (trim s)) = trim (before c s) := by
  obtain ⟨a, b, ha, hb, hs, -⟩ := exists_trim s
  generalize trim s = t at hs
  subst hs
  have hbefore : before c (a ++ (t ++ b)) = a ++ before c (t ++ b) := by
    apply List.takeWhile_append_of_pos
    intro d hd
    rw [bne_iff_ne]
    rintro rfl
    exact ha.not_mem hc hd
  rw [hbefore, trim_append_left ha, trim_before_append hc hb]

end Text

open Text

/-- A value that does not start with a quote ends before the first `#`. -/
theorem stripComment_of_head {value : List Char} (h : value.head? ≠ some '"') :
    stripComment value = trim (before '#' value) := by
  unfold stripComment
  split
  · exact absurd rfl h
  · rfl

namespace Config

variable {ls : List (List Char)}

theorem read_text (h : ∀ l ∈ ls, '\n' ∉ l) :
    Config.read (Config.text ls) = (Reading.lines {} 1 ls).map Reading.config := by
  rw [Config.read, Config.text, String.toList_ofList]
  cases ls with
  | nil => rfl
  | cons l ls => rw [lines_joined (List.cons_ne_nil l ls) h]

theorem read_text_ok {r : Reading} (h : ∀ l ∈ ls, '\n' ∉ l) (hr : Reading.lines {} 1 ls = .ok r) :
    Config.read (Config.text ls) = .ok r.config := by
  rw [read_text h, hr]
  rfl

end Config

/-- Blanks on a line. -/
structure Gap (b : List Char) : Prop where
  blank : Blank b
  oneLine : '\n' ∉ b

theorem gap_space : Gap [' '] := ⟨List.forall_mem_singleton.mpr rfl, by decide⟩

/-- What may stand behind a value on its line: blanks, and then nothing or a comment. -/
inductive Trailer : List Char → Prop
  | intro {b rest : List Char} (gap : Gap b) (comment : EndsAt '#' rest) (oneLine : '\n' ∉ rest) :
      Trailer (b ++ rest)

theorem trailer_nil : Trailer [] :=
  .intro (b := []) ⟨nofun, List.not_mem_nil⟩ (endsAt_nil '#') List.not_mem_nil

theorem Trailer.oneLine {tail : List Char} (h : Trailer tail) : '\n' ∉ tail := by
  cases h with
  | intro gap comment oneLine => exact List.not_mem_append gap.oneLine oneLine

/-- A name that has no blank and no character of the syntax in it. -/
structure Name (x : List Char) : Prop where
  some : x ≠ []
  plain : ∀ c ∈ x, isBlank c = false ∧ c ∉ ['\n', '#', '[', '.', '=']

theorem name_of_all {x : List Char} (some : x ≠ [])
    (plain : x.all (fun c => !isBlank c && !List.contains ['\n', '#', '[', '.', '='] c) = true) :
    Name x := by
  refine ⟨some, fun c hc => ?_⟩
  have h := List.all_eq_true.mp plain c hc
  simpa only [Bool.and_eq_true, Bool.not_eq_true', List.contains_eq_mem,
    decide_eq_false_iff_not] using h

theorem Setting.name_group (s : Setting) : Name s.group.toList := by
  cases s <;> exact name_of_all (by decide) rfl

theorem Setting.name_key (s : Setting) : Name s.key.toList := by
  cases s <;> exact name_of_all (by decide) rfl

namespace Name

variable {x y b : List Char}

theorem not_mem (h : Name x) {c : Char} (hc : c ∈ ['\n', '#', '[', '.', '=']) : c ∉ x :=
  fun hm => (h.plain c hm).2 hc

theorem not_mem_append (h : Name x) (hb : Blank b) {c : Char}
    (hc : c ∈ ['\n', '#', '[', '.', '=']) (hn : isBlank c = false) : c ∉ x ++ b := by
  rw [List.mem_append, not_or]
  exact ⟨h.not_mem hc, hb.not_mem hn⟩

theorem tight (h : Name x) : Tight x :=
  ⟨fun c hc => (h.plain c (List.mem_of_mem_head? hc)).1,
    fun c hc => (h.plain c (List.mem_of_mem_getLast? hc)).1⟩

theorem trim_append (h : Name x) (hb : Blank b) : trim (x ++ b) = x :=
  trim_of_tight (a := []) nofun h.tight hb

theorem trim_eq (h : Name x) : trim x = x := by
  have ht := h.trim_append (b := []) nofun
  rwa [List.append_nil] at ht

/-- A line that starts with a name is no comment and no header. -/
theorem start (h : Name x) (y : List Char) :
    ∀ c ∈ (x ++ y).head?, isBlank c = false ∧ c ≠ '#' ∧ c ≠ '[' := by
  obtain ⟨c, cs, rfl⟩ := List.exists_cons_of_ne_nil h.some
  rintro _ ⟨⟩
  obtain ⟨hb, hc⟩ := h.plain c List.mem_cons_self
  refine ⟨hb, ?_, ?_⟩
  all_goals
    rintro rfl
    exact hc (by decide)

end Name

section Forms

variable {g k b : List Char}

/-- A header that is written with the name of a group names that group. -/
theorem form_header_name (tight : trim g = g) (plain : '#' ∉ g) {tail : List Char}
    (ht : Trailer tail) : HasForm ('[' :: g ++ ']' :: tail) (.header g) := by
  cases ht with
  | @intro b rest gap comment oneLine =>
    have h : HasForm ([] ++ '[' :: (g ++ ']' :: (b ++ rest))) (.header (trim g)) :=
      .header nofun plain gap.blank comment
    rwa [tight] at h

/-- A key that is written alone, with blanks behind it, is in the group of the last header. -/
theorem form_plain (hk : Name k) (hb : Blank b) (right : List Char) :
    HasForm (k ++ b ++ '=' :: right) (.pair none k (stripComment (trim right))) := by
  have hnames := Names.bare (hk.not_mem_append hb (by decide) (by decide) : '.' ∉ k ++ b)
  rw [hk.trim_append hb] at hnames
  exact .assignment (a := []) nofun (hk.start b)
    (hk.not_mem_append hb (by decide) (by decide)) hnames

/-- A key that is written behind its group is in that group. -/
theorem form_qualified (hg : Name g) (hk : Name k) (hb : Blank b) (right : List Char) :
    HasForm (g ++ '.' :: (k ++ b ++ '=' :: right))
      (.pair (some g) k (stripComment (trim right))) := by
  have hnames : Names (g ++ '.' :: (k ++ b)) (some (trim g)) (trim (k ++ b)) :=
    .qualified (hg.not_mem (by decide))
  rw [hg.trim_eq, hk.trim_append hb] at hnames
  have first : '=' ∉ g ++ '.' :: (k ++ b) := by
    rw [List.mem_append, List.mem_cons, not_or, not_or]
    exact ⟨hg.not_mem (by decide), by decide, hk.not_mem_append hb (by decide) (by decide)⟩
  have h : HasForm ([] ++ (g ++ '.' :: (k ++ b) ++ '=' :: right))
      (.pair (some g) k (stripComment (trim right))) :=
    .assignment nofun (hg.start _) first hnames
  rwa [List.nil_append, List.append_assoc, List.cons_append] at h

end Forms

namespace Reading

variable {r : Reading} {line key value : List Char} {own : Option (List Char)} {s : Setting}
variable {a : Assignment}

theorem line_of_blank (form : HasForm line .blank) : r.line line = .ok r := by
  rw [Reading.line, Line.read_of_form form]

theorem line_of_header {g : List Char} (form : HasForm line (.header g)) :
    r.line line = .ok { r with group := g } := by
  rw [Reading.line, Line.read_of_form form]

/-- An assignment of a key that there is, with a value that it can have. -/
theorem line_of_pair (form : HasForm line (.pair own key value))
    (known : s.group.toList = own.getD r.group ∧ s.key.toList = key)
    (valid : s.read value = .ok a) :
    r.line line = .ok { r with config := r.config.assign a } := by
  have hg : own.getD r.group ≠ [] := known.1 ▸ s.name_group.some
  have ha := Assignment.read_ok_iff.mpr ⟨hg, s, known, valid⟩
  rw [Reading.line, Line.read_of_form form]
  simp only [ha]

end Reading

end PacketBudget
