import PacketBudget.Config.Reader

/-!
The forms of the lines of a configuration: blank, a comment, a header, an assignment. A line says
what its form says, and a line of none of these forms is refused.
-/

namespace PacketBudget

namespace Text

/-- Nothing but blanks. -/
def Blank (s : List Char) : Prop := ∀ c ∈ s, isBlank c = true

/-- No blank at either end. -/
structure Tight (s : List Char) : Prop where
  head : ∀ c ∈ s.head?, isBlank c = false
  last : ∀ c ∈ s.getLast?, isBlank c = false

/-- Nothing more, or `c` and whatever is behind it. -/
def EndsAt (c : Char) (s : List Char) : Prop := ∀ d ∈ s.head?, d = c

variable {a b s t : List Char} {c : Char}

theorem Blank.append (ha : Blank a) (hb : Blank b) : Blank (a ++ b) := by
  intro c hc
  rcases List.mem_append.mp hc with h | h
  · exact ha c h
  · exact hb c h

theorem Blank.reverse (ha : Blank a) : Blank a.reverse := fun c hc => ha c (List.mem_reverse.mp hc)

theorem Blank.not_mem (ha : Blank a) (hc : isBlank c = false) : c ∉ a := by
  intro hm
  rw [ha c hm] at hc
  cases hc

theorem trimLeft_append (ha : Blank a) (s : List Char) : trimLeft (a ++ s) = trimLeft s :=
  List.dropWhile_append_of_pos ha

theorem trimLeft_eq_self (h : ∀ c ∈ s.head?, isBlank c = false) : trimLeft s = s := by
  cases s with
  | nil => rfl
  | cons c cs => exact List.dropWhile_cons_of_neg (by simp [h c rfl])

theorem exists_trimLeft (s : List Char) :
    ∃ a, Blank a ∧ s = a ++ trimLeft s ∧ ∀ c ∈ (trimLeft s).head?, isBlank c = false := by
  refine ⟨s.takeWhile isBlank, ?_, List.takeWhile_append_dropWhile.symm, ?_⟩
  · exact List.all_eq_true.mp List.all_takeWhile
  · intro c hc
    have h := List.head?_dropWhile_not isBlank s
    have hc : (s.dropWhile isBlank).head? = some c := hc
    rw [hc] at h
    exact h

/-- A text is trimmed to what stands between its blanks. -/
theorem trim_of_tight (ha : Blank a) (ht : Tight t) (hb : Blank b) : trim (a ++ (t ++ b)) = t := by
  have hright : trimRight (t ++ b) = t := by
    have hhead : ∀ c ∈ t.reverse.head?, isBlank c = false := by
      rw [List.head?_reverse]
      exact ht.last
    have hl : trimLeft (b.reverse ++ t.reverse) = t.reverse := by
      rw [trimLeft_append hb.reverse, trimLeft_eq_self hhead]
    rw [trimRight, List.reverse_append]
    exact (congrArg List.reverse hl).trans (List.reverse_reverse t)
  rw [trim, trimLeft_append ha]
  cases t with
  | nil =>
    have hl := trimLeft_append hb []
    rw [List.append_nil] at hl
    rw [List.nil_append, hl]
    rfl
  | cons c cs =>
    have hl : trimLeft (c :: cs ++ b) = c :: cs ++ b := trimLeft_eq_self ht.head
    rw [hl, hright]

theorem exists_trim (s : List Char) :
    ∃ a b, Blank a ∧ Blank b ∧ s = a ++ (trim s ++ b) ∧ Tight (trim s) := by
  obtain ⟨a, ha, hs, hhead⟩ := exists_trimLeft s
  obtain ⟨b, hb, hr, hlast⟩ := exists_trimLeft (trimLeft s).reverse
  have ht : trim s = (trimLeft (trimLeft s).reverse).reverse := rfl
  have hright : trimLeft s = trim s ++ b.reverse := by
    rw [ht, ← List.reverse_append, ← hr, List.reverse_reverse]
  refine ⟨a, b.reverse, ha, hb.reverse, by rw [← hright]; exact hs, ?_, ?_⟩
  · intro c hc
    apply hhead
    rw [hright, List.head?_append, Option.mem_def.mp hc]
    rfl
  · rw [ht, List.getLast?_reverse]
    exact hlast

theorem trim_trim (s : List Char) : trim (trim s) = trim s := by
  obtain ⟨-, -, -, -, -, ht⟩ := exists_trim s
  have h := trim_of_tight (a := []) (b := []) nofun ht nofun
  rwa [List.nil_append, List.append_nil] at h

theorem trim_of_blank (ha : Blank a) : trim a = [] := by
  have h := trim_of_tight ha (t := []) (b := []) ⟨nofun, nofun⟩ nofun
  rwa [List.nil_append, List.append_nil] at h

/-- Blanks around a text go with those it has. -/
theorem trim_append (ha : Blank a) (hb : Blank b) (s : List Char) :
    trim (a ++ (s ++ b)) = trim s := by
  obtain ⟨x, y, hx, hy, hs, ht⟩ := exists_trim s
  have h := trim_of_tight (ha.append hx) ht (hy.append hb)
  generalize trim s = t at hs h ⊢
  subst hs
  simpa only [List.append_assoc] using h

theorem trim_append_left (ha : Blank a) (s : List Char) : trim (a ++ s) = trim s := by
  have h := trim_append ha (b := []) nofun s
  rwa [List.append_nil] at h

theorem trim_append_right (hb : Blank b) (s : List Char) : trim (s ++ b) = trim s :=
  trim_append (a := []) nofun hb s

/-- A text is trimmed from its first character that is not blank. -/
theorem exists_trim_cons (ha : Blank a) (hc : isBlank c = false) (s : List Char) :
    ∃ t b, Blank b ∧ s = t ++ b ∧ trim (a ++ c :: s) = c :: t := by
  obtain ⟨b, hb, hr, hlast⟩ := exists_trimLeft (c :: s).reverse
  generalize trimLeft (c :: s).reverse = r at hr hlast
  have hs : c :: s = r.reverse ++ b.reverse := by
    rw [← List.reverse_append, ← hr, List.reverse_reverse]
  cases hrev : r.reverse with
  | nil =>
    rw [hrev, List.nil_append] at hs
    have hm := hb.reverse.not_mem hc
    rw [← hs] at hm
    exact absurd List.mem_cons_self hm
  | cons d t =>
    rw [hrev] at hs
    obtain ⟨rfl, rfl⟩ := List.cons.inj hs
    have ht : Tight (c :: t) := by
      constructor
      · rintro _ ⟨⟩
        exact hc
      · rw [← hrev, List.getLast?_reverse]
        exact hlast
    exact ⟨t, b.reverse, hb.reverse, rfl, trim_of_tight ha ht hb.reverse⟩

theorem cut?_append {x : List Char} (h : c ∉ x) (s : List Char) :
    cut? c (x ++ c :: s) = some (x, s) := by
  induction x with
  | nil => simp only [List.nil_append, cut?, ↓reduceIte]
  | cons d ds ih =>
    rw [List.mem_cons, not_or] at h
    simp only [List.cons_append, cut?, if_neg (Ne.symm h.1), ih h.2, Option.map_some]

theorem endsAt_nil (c : Char) : EndsAt c [] := by
  rintro d ⟨⟩

theorem endsAt_cons (c : Char) (s : List Char) : EndsAt c (c :: s) := by
  rintro d ⟨⟩
  rfl

theorem before_append {x rest : List Char} (h : c ∉ x) (hr : EndsAt c rest) :
    before c (x ++ rest) = x := by
  have hx : ∀ d ∈ x, (d != c) = true := by
    intro d hd
    rw [bne_iff_ne]
    rintro rfl
    exact h hd
  rw [before, List.takeWhile_append_of_pos hx]
  cases rest with
  | nil => exact List.append_nil x
  | cons d ds =>
    rw [hr d rfl, List.takeWhile_cons_of_neg (by simp), List.append_nil]

theorem exists_before (c : Char) (s : List Char) :
    ∃ rest, s = before c s ++ rest ∧ c ∉ before c s ∧ EndsAt c rest := by
  refine ⟨s.dropWhile (· != c), List.takeWhile_append_dropWhile.symm, ?_, ?_⟩
  · intro hm
    have h := List.all_eq_true.mp List.all_takeWhile c hm
    simp at h
  · intro d hd
    have h := List.head?_dropWhile_not (· != c) s
    rw [Option.mem_def.mp hd] at h
    simpa using h

/-- Blanks at the end of a text are no part of what stands before `c`. -/
theorem trim_before_append (hc : isBlank c = false) (hb : Blank b) (s : List Char) :
    trim (before c (s ++ b)) = trim (before c s) := by
  obtain ⟨rest, hs, hn, hr⟩ := exists_before c s
  generalize before c s = x at hs hn
  subst hs
  cases rest with
  | nil =>
    rw [List.append_nil, ← List.append_nil (x ++ b), before_append _ (endsAt_nil c),
      trim_append_right hb]
    intro hm
    rcases List.mem_append.mp hm with h | h
    · exact hn h
    · exact hb.not_mem hc h
  | cons d ds =>
    obtain rfl := hr d rfl
    have hr' : EndsAt d (d :: ds ++ b) := endsAt_cons d (ds ++ b)
    rw [List.append_assoc, before_append hn hr']

/-- A character that is not blank stays where it is when blanks are taken off. -/
theorem split_of_trim {x y : List Char} (hc : isBlank c = false) (ha : Blank a) (hb : Blank b)
    (h : x ++ c :: y = a ++ (t ++ b)) : ∃ x' y', t = x' ++ c :: y' ∧ x = a ++ x' ∧ y = y' ++ b := by
  obtain ⟨x', rfl, hx⟩ : ∃ x', x = a ++ x' ∧ t ++ b = x' ++ c :: y := by
    rcases List.append_eq_append_iff.mp h with ⟨z, rfl, hz⟩ | ⟨z, hz, hx⟩
    · cases z with
      | nil => exact ⟨[], by rw [List.append_nil, List.append_nil], hz.symm⟩
      | cons d z =>
        obtain ⟨rfl, -⟩ := List.cons.inj hz
        exact absurd (List.mem_append_right x List.mem_cons_self) (ha.not_mem hc)
    · exact ⟨z, hz, hx⟩
  rcases List.append_eq_append_iff.mp hx with ⟨z, -, rfl⟩ | ⟨z, rfl, hz⟩
  · exact absurd (List.mem_append_right z List.mem_cons_self) (hb.not_mem hc)
  · cases z with
    | nil =>
      rw [List.nil_append] at hz
      exact absurd (hz ▸ List.mem_cons_self) (hb.not_mem hc)
    | cons d z =>
      obtain ⟨rfl, rfl⟩ := List.cons.inj hz
      exact ⟨x', z, rfl, rfl, rfl⟩

end Text

open Text

/-- The left side of an assignment names its key, with or without a group of its own. -/
inductive Names : List Char → Option (List Char) → List Char → Prop
  | bare {left : List Char} (plain : '.' ∉ left) : Names left none (trim left)
  | qualified {group key : List Char} (first : '.' ∉ group) :
      Names (group ++ '.' :: key) (some (trim group)) (trim key)

/-- What the lines of each form say. -/
inductive HasForm : List Char → Line → Prop
  | blank {line : List Char} (blank : Blank line) : HasForm line .blank
  | comment {a text : List Char} (indent : Blank a) : HasForm (a ++ '#' :: text) .blank
  /-- The last bracket before the comment, if there is one, is the closing one. -/
  | header {a b name rest : List Char} (indent : Blank a) (plain : '#' ∉ name) (behind : Blank b)
      (comment : EndsAt '#' rest) :
      HasForm (a ++ '[' :: (name ++ ']' :: (b ++ rest))) (.header (trim name))
  | assignment {a left right key : List Char} {group : Option (List Char)} (indent : Blank a)
      (start : ∀ c ∈ left.head?, isBlank c = false ∧ c ≠ '#' ∧ c ≠ '[') (first : '=' ∉ left)
      (names : Names left group key) :
      HasForm (a ++ (left ++ '=' :: right)) (.pair group key (stripComment (trim right)))

namespace Line

variable {line left right key : List Char} {group : Option (List Char)} {x : Line}

/-- The group and the key of a left side, parted at its first dot. -/
def named (left : List Char) : Option (List Char) × List Char :=
  match cut? '.' left with
  | some (group, key) => (some (trim group), trim key)
  | none => (none, trim left)

theorem names_iff : Names left group key ↔ named left = (group, key) := by
  constructor
  · rintro (plain | first)
    · rw [named, cut?_eq_none_iff.mpr plain]
    · rw [named, cut?_append first]
  · intro h
    rw [named] at h
    cases hc : cut? '.' left with
    | none =>
      rw [hc] at h
      cases h
      exact .bare (cut?_eq_none_iff.mp hc)
    | some p =>
      obtain ⟨g, k⟩ := p
      obtain ⟨rfl, hg⟩ := eq_append_of_cut? hc
      rw [hc] at h
      cases h
      exact .qualified hg

/-- The blanks around a left side are no part of its names. -/
theorem named_trim (left : List Char) : named (trim left) = named left := by
  obtain ⟨a, b, ha, hb, hl, -⟩ := exists_trim left
  generalize trim left = t at hl ⊢
  subst hl
  cases hc : cut? '.' t with
  | none =>
    have hn : cut? '.' (a ++ (t ++ b)) = none := by
      have ht := cut?_eq_none_iff.mp hc
      rw [cut?_eq_none_iff]
      simp only [List.mem_append, not_or]
      exact ⟨ha.not_mem (by decide), ht, hb.not_mem (by decide)⟩
    rw [named, named, hc, hn]
    exact congrArg (Prod.mk none) (trim_append ha hb t).symm
  | some p =>
    obtain ⟨g, k⟩ := p
    obtain ⟨rfl, hg⟩ := eq_append_of_cut? hc
    have hs : cut? '.' (a ++ (g ++ '.' :: k ++ b)) = some (a ++ g, k ++ b) := by
      have ha' : '.' ∉ a ++ g := by
        simp only [List.mem_append, not_or]
        exact ⟨ha.not_mem (by decide), hg⟩
      have h := cut?_append ha' (k ++ b)
      simpa only [List.append_assoc, List.cons_append] using h
    rw [named, named, hc, hs]
    simp only [trim_append_left ha, trim_append_right hb]

theorem ofTrimmed_assignment (start : ∀ c ∈ left.head?, isBlank c = false ∧ c ≠ '#' ∧ c ≠ '[')
    (first : '=' ∉ left) (right : List Char) :
    ofTrimmed (left ++ '=' :: right) =
      .ok (.pair (named left).1 (named left).2 (stripComment (trim right))) := by
  have hcut := cut?_append first right
  obtain ⟨c, s, hs, hh, hb⟩ : ∃ c s, left ++ '=' :: right = c :: s ∧ c ≠ '#' ∧ c ≠ '[' := by
    cases left with
    | nil => exact ⟨_, _, rfl, by decide, by decide⟩
    | cons c cs => exact ⟨c, _, rfl, (start c rfl).2⟩
  rw [hs] at hcut ⊢
  unfold ofTrimmed
  split
  · rename_i h
    cases h
  · rename_i h
    cases h
    exact absurd rfl hh
  · rename_i h
    cases h
    exact absurd rfl hb
  · simp only [hcut]
    have hn := named_trim left
    rw [named] at hn
    cases hc : cut? '.' (trim left) with
    | none =>
      rw [hc, trim_trim] at hn
      simp only [← hn]
    | some p =>
      rw [hc] at hn
      simp only [← hn]

/-- The closing bracket is what the text before a comment ends with. -/
theorem trim_header (name : List Char) {b : List Char} (behind : Blank b) :
    ∃ a, Blank a ∧ ∃ n, name = a ++ n ∧ trim (name ++ ']' :: b) = n ++ [']'] := by
  obtain ⟨a, ha, hn, hhead⟩ := exists_trimLeft name
  refine ⟨a, ha, trimLeft name, hn, ?_⟩
  generalize trimLeft name = n at hn hhead
  subst hn
  have ht : Tight (n ++ [']']) := by
    constructor
    · cases n with
      | nil =>
        rintro _ ⟨⟩
        decide
      | cons c n => exact hhead
    · rw [List.getLast?_concat]
      rintro _ ⟨⟩
      decide
  have h := trim_of_tight ha ht behind
  simpa only [List.append_assoc, List.singleton_append] using h

theorem ofTrimmed_header {t name b : List Char} (behind : Blank b)
    (h : trim (before '#' t) = trim (name ++ ']' :: b)) :
    ofTrimmed ('[' :: t) = .ok (.header (trim name)) := by
  obtain ⟨a, ha, n, rfl, hn⟩ := trim_header name behind
  rw [hn] at h
  simp only [ofTrimmed, h, List.getLast?_concat, ↓reduceIte, List.dropLast_concat,
    trim_append_left ha]

theorem read_of_form (h : HasForm line x) : read line = .ok x := by
  rw [read]
  cases h with
  | blank hb =>
    rw [trim_of_blank hb]
    rfl
  | @comment a text indent =>
    obtain ⟨t, b, -, -, ht⟩ := exists_trim_cons indent (show isBlank '#' = false by decide) text
    rw [ht]
    rfl
  | @header a b name rest indent plain behind comment =>
    obtain ⟨t, z, hz, hs, ht⟩ := exists_trim_cons indent (show isBlank '[' = false by decide)
      (name ++ ']' :: (b ++ rest))
    rw [ht]
    apply ofTrimmed_header behind
    rw [← trim_before_append (by decide) hz, ← hs, ← List.cons_append, ← List.append_assoc,
      before_append _ comment]
    simp only [List.mem_append, List.mem_cons, not_or]
    exact ⟨plain, by decide, behind.not_mem (by decide)⟩
  | @assignment a left right key group indent start first names =>
    obtain ⟨p, q, hp, hq, hs, htight⟩ := exists_trim (a ++ (left ++ '=' :: right))
    rw [← List.append_assoc] at hs
    obtain ⟨x, y, ht, hleft, rfl⟩ := split_of_trim (by decide) hp hq hs
    -- Both sides are what is left of the same text without the blanks at its front.
    have hx : left = x := by
      have h₁ : trimLeft left = left := trimLeft_eq_self fun c hc => (start c hc).1
      have h₂ : trimLeft x = x := by
        apply trimLeft_eq_self
        intro c hc
        apply htight.head
        rw [← List.append_assoc, ht, List.head?_append, Option.mem_def.mp hc]
        rfl
      rw [← h₁, ← h₂, ← trimLeft_append indent, hleft, trimLeft_append hp]
    subst hx
    rw [← List.append_assoc, ht, ofTrimmed_assignment start first, trim_append_right hq,
      names_iff.mp names]

/-- A header that has been read is one, whatever blanks `b` are behind it. -/
theorem form_header {a b t : List Char} (ha : Blank a) (hb : Blank b)
    (h : ofTrimmed ('[' :: t) = .ok x) : HasForm (a ++ '[' :: (t ++ b)) x := by
  obtain ⟨rest, hs, hn, comment⟩ := exists_before '#' t
  obtain ⟨p, q, hp, hq, hbefore, -⟩ := exists_trim (before '#' t)
  simp only [ofTrimmed] at h
  generalize trim (before '#' t) = head at h hbefore
  split at h
  · rename_i hlast
    obtain ⟨n, rfl⟩ := List.getLast?_eq_some_iff.mp hlast
    rw [List.dropLast_concat] at h
    cases h
    have plain : '#' ∉ p ++ n := by
      rw [hbefore] at hn
      simp only [List.mem_append, not_or] at hn ⊢
      exact ⟨hn.1, hn.2.1.1⟩
    rw [← trim_append_left hp n]
    cases rest with
    | nil =>
      have ht : t ++ b = (p ++ n) ++ ']' :: (q ++ b ++ []) := by
        rw [hs, hbefore]
        simp only [List.append_assoc, List.append_nil, List.cons_append, List.nil_append]
      rw [ht]
      exact .header ha plain (hq.append hb) (endsAt_nil '#')
    | cons c cs =>
      have ht : t ++ b = (p ++ n) ++ ']' :: (q ++ (c :: cs ++ b)) := by
        rw [hs, hbefore]
        simp only [List.append_assoc, List.cons_append, List.nil_append]
      rw [ht]
      exact .header ha plain hq comment
  · cases h

theorem form_of_read (h : read line = .ok x) : HasForm line x := by
  obtain ⟨a, b, ha, hb, hl, htight⟩ := exists_trim line
  rw [read] at h
  generalize trim line = t at hl h htight
  subst hl
  have hread := h
  unfold ofTrimmed at h
  split at h
  · cases h
    exact .blank (ha.append hb)
  · cases h
    exact .comment ha
  · exact form_header ha hb hread
  · rename_i hnil hhash hbracket
    split at h
    · cases h
    · rename_i left right hcut
      obtain ⟨rfl, first⟩ := eq_append_of_cut? hcut
      have start : ∀ c ∈ left.head?, isBlank c = false ∧ c ≠ '#' ∧ c ≠ '[' := by
        intro c hc
        obtain ⟨l, rfl⟩ := List.head?_eq_some_iff.mp hc
        refine ⟨htight.head c rfl, ?_, ?_⟩
        · rintro rfl
          exact hhash _ rfl
        · rintro rfl
          exact hbracket _ rfl
      rw [ofTrimmed_assignment start first] at hread
      cases hread
      rw [List.append_assoc, List.cons_append, ← trim_append_right hb right]
      exact .assignment ha start first (names_iff.mpr rfl)

/-- A line is read as what its form says, and as nothing else. -/
theorem read_iff_form : read line = .ok x ↔ HasForm line x := ⟨form_of_read, read_of_form⟩

end Line

theorem HasForm.unique {line : List Char} {x y : Line} (h : HasForm line x)
    (h' : HasForm line y) : x = y := by
  have hx := Line.read_of_form h
  rw [Line.read_of_form h'] at hx
  cases hx
  rfl

end PacketBudget
