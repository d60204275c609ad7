import PacketBudget.Proofs.Spelling

/-!
Configurations that are written and read back. Numbers are written in decimal and strings between
quotes, and each is read as what it was, whatever comment stands behind it. A text that assigns all
eight settings, in whatever order, each under the header of its group or with the group in front,
gives the configuration that it was written from.
-/

namespace PacketBudget

namespace Text

variable {max acc n : Nat} {f : NumeralFault} {ds : List Char}

theorem digit?_of_isDigit {c : Char} (h : c.isDigit = true) :
    digit? c = some (c.toNat - '0'.toNat) := by
  simp only [Char.isDigit, Bool.and_eq_true, decide_eq_true_eq] at h
  exact if_pos h

theorem le_ofDigitChars (ds : List Char) (acc : Nat) : acc ≤ Nat.ofDigitChars 10 ds acc := by
  induction ds generalizing acc with
  | nil => exact Nat.le_refl _
  | cons d ds ih =>
    rw [Nat.ofDigitChars_cons]
    have h := ih (10 * acc + (d.toNat - '0'.toNat))
    omega

/-- Digits whose value is in range are read as their value: on the way there it is no larger. -/
theorem readDigits_eq (hd : ∀ c ∈ ds, c.isDigit = true)
    (hm : Nat.ofDigitChars 10 ds acc ≤ max) :
    readDigits max f acc ds = .ok (Nat.ofDigitChars 10 ds acc) := by
  induction ds generalizing acc with
  | nil => rfl
  | cons d ds ih =>
    obtain ⟨hd, hds⟩ := List.forall_mem_cons.mp hd
    rw [Nat.ofDigitChars_cons, Nat.mul_comm] at hm ⊢
    have hle := Nat.le_trans (le_ofDigitChars ds _) hm
    simp only [readDigits, digit?_of_isDigit hd, hle, ↓reduceIte]
    exact ih hds hm

/-- The decimal digits of a number. -/
theorem decimal_digits (n : Nat) :
    (toString n).toList ≠ [] ∧ ∀ c ∈ (toString n).toList, c.isDigit = true := by
  rw [Nat.toString_eq_repr, Nat.toList_repr]
  exact ⟨Nat.toDigits_ne_nil, fun c => Nat.isDigit_of_mem_toDigits (by decide) (by decide)⟩

theorem readDigits_decimal (h : n ≤ max) : readDigits max f 0 (toString n).toList = .ok n := by
  have hv : Nat.ofDigitChars 10 (toString n).toList 0 = n := by
    rw [Nat.toString_eq_repr, Nat.toList_repr]
    exact Nat.ofDigitChars_toDigits (by decide) (by decide)
  rw [readDigits_eq (decimal_digits n).2 (hv.symm ▸ h), hv]

/-- A numeral without a sign is digits. -/
theorem readUnsigned_of_digit {d : Char} (h : d.isDigit = true) (ds : List Char) :
    readUnsigned max (d :: ds) = readDigits max .tooLarge 0 (d :: ds) := by
  unfold readUnsigned
  split
  case h_1 he => cases he
  case h_2 he | h_3 he =>
    cases he
    cases h
  case h_4 => rfl

theorem readSigned_of_digit {low : Nat} {d : Char} (h : d.isDigit = true) (ds : List Char) :
    readSigned low max (d :: ds) = (readDigits max .tooLarge 0 (d :: ds)).map Int.ofNat := by
  unfold readSigned
  split
  case h_1 he => cases he
  case h_2 he | h_3 he | h_4 he | h_5 he =>
    cases he
    cases h
  case h_6 => rfl

theorem exists_decimal (n : Nat) :
    ∃ d ds, (toString n).toList = d :: ds ∧ d.isDigit = true := by
  obtain ⟨hne, hall⟩ := decimal_digits n
  obtain ⟨d, ds, he⟩ := List.exists_cons_of_ne_nil hne
  exact ⟨d, ds, he, hall d (he ▸ List.mem_cons_self)⟩

theorem readUInt64_decimal (v : UInt64) : readUInt64 (toString v.toNat).toList = .ok v := by
  have hr : readDigits 18446744073709551615 .tooLarge 0 (toString v.toNat).toList = .ok v.toNat :=
    readDigits_decimal (Nat.le_of_lt_succ v.toNat_lt)
  obtain ⟨d, ds, he, hd⟩ := exists_decimal v.toNat
  rw [he] at hr
  rw [readUInt64, he, readUnsigned_of_digit hd, hr]
  exact congrArg Except.ok v.ofNat_toNat

/-- The decimal of an integer is that of its amount, with a sign if it is negative. -/
theorem toList_toString (i : Int) :
    (toString i).toList =
      if 0 ≤ i then (toString i.toNat).toList else '-' :: (toString (-i).toNat).toList := by
  rw [Int.toString_eq_repr, Int.repr_eq_if]
  split
  · rfl
  · rw [String.toList_append]
    rfl

theorem readInt64_decimal (v : Int64) : readInt64 (toString v.toInt).toList = .ok v := by
  have hlow : -9223372036854775808 ≤ v.toInt := v.le_toInt
  have hhigh : v.toInt < 9223372036854775808 := v.toInt_lt
  have hs : readSigned 9223372036854775808 9223372036854775807 (toString v.toInt).toList =
      .ok v.toInt := by
    rw [toList_toString]
    split
    · obtain ⟨d, ds, he, hd⟩ := exists_decimal v.toInt.toNat
      have hr : readDigits 9223372036854775807 .tooLarge 0 (toString v.toInt.toNat).toList =
          .ok v.toInt.toNat := readDigits_decimal (by omega)
      rw [he] at hr
      rw [he, readSigned_of_digit hd, hr]
      exact congrArg Except.ok (Int.toNat_of_nonneg ‹_›)
    · obtain ⟨d, ds, he, hd⟩ := exists_decimal (-v.toInt).toNat
      have hr : readDigits 9223372036854775808 .tooSmall 0 (toString (-v.toInt).toNat).toList =
          .ok (-v.toInt).toNat := readDigits_decimal (by omega)
      rw [he] at hr ⊢
      have hneg : readSigned 9223372036854775808 9223372036854775807 ('-' :: d :: ds) =
          (readDigits 9223372036854775808 .tooSmall 0 (d :: ds)).map fun n => -Int.ofNat n := rfl
      rw [hneg, hr]
      refine congrArg Except.ok ?_
      show -((-v.toInt).toNat : Int) = v.toInt
      omega
  rw [readInt64, hs]
  exact congrArg Except.ok v.ofInt_toInt

/-- A number as it is written: digits, perhaps with a sign. -/
structure Bare (d : List Char) : Prop where
  some : d ≠ []
  plain : ∀ c ∈ d, c.isDigit = true ∨ c = '-'

theorem bare_nat (n : Nat) : Bare (toString n).toList :=
  ⟨(decimal_digits n).1, fun c hc => Or.inl ((decimal_digits n).2 c hc)⟩

theorem bare_int (i : Int) : Bare (toString i).toList := by
  rw [toList_toString]
  split
  · exact bare_nat _
  · refine ⟨List.cons_ne_nil _ _, List.forall_mem_cons.mpr ⟨Or.inr rfl, (bare_nat _).plain⟩⟩

theorem Bare.char {d : List Char} (h : Bare d) {c : Char} (hc : c ∈ d) :
    isBlank c = false ∧ c ≠ '#' ∧ c ≠ '"' ∧ c ≠ '\n' := by
  rcases h.plain c hc with hd | rfl
  · have hrange : 48 ≤ c.toNat ∧ c.toNat ≤ 57 := by
      simpa [Char.isDigit, UInt32.le_iff_toNat_le] using hd
    refine ⟨?_, ?_, ?_, ?_⟩
    · simp only [isBlank, Bool.or_eq_false_iff, Bool.and_eq_false_iff, decide_eq_false_iff_not,
        beq_eq_false_iff_ne]
      omega
    all_goals
      rintro rfl
      cases hd
  · decide

theorem Bare.tight {d : List Char} (h : Bare d) : Tight d :=
  ⟨fun _ hc => (h.char (List.mem_of_mem_head? hc)).1,
    fun _ hc => (h.char (List.mem_of_mem_getLast? hc)).1⟩

end Text

open Text

/-- A string that has no quote is read as it was between its quotes. -/
theorem unquote_quoted {v : List Char} (hv : '"' ∉ v) : unquote ('"' :: v ++ ['"']) = v := by
  have hdrop : ∀ w : List Char, '"' ∉ w → w.dropWhile (· == '"') = w := by
    intro w hw
    cases w with
    | nil => rfl
    | cons c w =>
      apply List.dropWhile_cons_of_neg
      rw [beq_iff_eq]
      rintro rfl
      exact hw List.mem_cons_self
  cases v with
  | nil => rfl
  | cons c v =>
    have hfront : ('"' :: (c :: v) ++ ['"']).dropWhile (· == '"') = c :: v ++ ['"'] := by
      have hc : ¬ (c == '"') = true := by
        rw [beq_iff_eq]
        rintro rfl
        exact hv List.mem_cons_self
      exact (List.dropWhile_cons_of_pos (by rfl)).trans (List.dropWhile_cons_of_neg hc)
    have hback : (c :: v ++ ['"']).reverse = '"' :: (c :: v).reverse := by
      rw [List.reverse_append]
      rfl
    rw [unquote, hfront, hback, List.dropWhile_cons_of_pos (by rfl),
      hdrop _ fun hm => hv (List.mem_reverse.mp hm), List.reverse_reverse]

variable {b d v tail : List Char}

/-- A quoted value ends with its second quote. -/
theorem stripComment_quoted (hb : Blank b) (hv : '"' ∉ v) (tail : List Char) :
    stripComment (trim (b ++ ('"' :: v ++ ['"'] ++ tail))) = '"' :: v ++ ['"'] := by
  obtain ⟨t, z, hz, hs, ht⟩ :=
    exists_trim_cons hb (show isBlank '"' = false by decide) (v ++ '"' :: tail)
  obtain ⟨x, y, hxy, hx, -⟩ := split_of_trim (a := []) (by decide) nofun hz hs
  rw [List.nil_append] at hx
  subst hx
  have he : '"' :: v ++ ['"'] ++ tail = '"' :: (v ++ '"' :: tail) := by
    rw [List.append_assoc, List.singleton_append, List.cons_append]
  rw [he, ht, hxy]
  simp only [stripComment, cut?_append hv]

/-- A value that is a number ends before the blanks and the comment behind it. -/
theorem stripComment_bare (hb : Blank b) (hd : Bare d) (h : Trailer tail) :
    stripComment (trim (b ++ (d ++ tail))) = d := by
  obtain ⟨c, ds, rfl⟩ := List.exists_cons_of_ne_nil hd.some
  have hhead : (trim (b ++ (c :: ds ++ tail))).head? ≠ some '"' := by
    obtain ⟨t, z, -, -, ht⟩ := exists_trim_cons hb (hd.char List.mem_cons_self).1 (ds ++ tail)
    rw [List.cons_append, ht]
    intro he
    exact (hd.char List.mem_cons_self).2.2.1 (Option.some.inj he)
  -- What is left is the text before the first `#`, with nothing taken off at its ends yet.
  rw [stripComment_of_head hhead, trim_before_trim (by decide)]
  cases h with
  | @intro g rest gap comment oneLine =>
    have hplain : '#' ∉ b ++ (c :: ds ++ g) := by
      simp only [List.mem_append, not_or]
      exact ⟨hb.not_mem (by decide), fun hm => (hd.char hm).2.1 rfl,
        gap.blank.not_mem (by decide)⟩
    have hs : b ++ (c :: ds ++ (g ++ rest)) = (b ++ (c :: ds ++ g)) ++ rest := by
      simp only [List.append_assoc]
    rw [hs, before_append hplain comment, trim_of_tight hb hd.tight gap.blank]

namespace Assignment

/-- A string is kept to one line and has no quote in it. -/
def Writable : Assignment → Prop
  | .serviceName v | .bindAddress v => '"' ∉ v.toList ∧ '\n' ∉ v.toList
  | .memoryLimit _ | .overhead _ | .packetCap _ | .maxFrame _ | .readTimeout _
  | .reportInterval _ => True

variable {a : Assignment}

theorem text_cases (h : a.Writable) :
    (∃ v, a.text = '"' :: v ++ ['"'] ∧ '"' ∉ v ∧ '\n' ∉ v) ∨ Bare a.text := by
  cases a with
  | serviceName v | bindAddress v => exact Or.inl ⟨v.toList, rfl, h.1, h.2⟩
  | memoryLimit v => exact Or.inr (bare_int _)
  | overhead v | packetCap v | maxFrame v | readTimeout v | reportInterval v =>
    exact Or.inr (bare_nat _)

/-- The value of a written assignment is read without what stands around it. -/
theorem stripComment_text (h : a.Writable) (hb : Blank b) (ht : Trailer tail) :
    stripComment (trim (b ++ (a.text ++ tail))) = a.text := by
  rcases text_cases h with ⟨v, he, hv, -⟩ | hd
  · rw [he]
    exact stripComment_quoted hb hv tail
  · exact stripComment_bare hb hd ht

theorem read_text (h : a.Writable) : a.setting.read a.text = .ok a := by
  cases a with
  | serviceName v | bindAddress v =>
    simp only [setting, text, Setting.read, unquote_quoted h.1, String.ofList_toList]
  | memoryLimit v => simp only [setting, text, Setting.read, readInt64_decimal, Except.map]
  | overhead v | packetCap v | maxFrame v | readTimeout v | reportInterval v =>
    simp only [setting, text, Setting.read, readUInt64_decimal, Except.map]

theorem oneLine_text (h : a.Writable) : '\n' ∉ a.text := by
  rcases text_cases h with ⟨v, he, -, hv⟩ | hd
  · rw [he]
    simpa using hv
  · exact fun hm => (hd.char hm).2.2.2 rfl

/-- `key = value`, with `b` and `b'` around the sign and `tail` behind the value. -/
def spelled (a : Assignment) (b b' tail : List Char) : List Char :=
  a.setting.key.toList ++ b ++ '=' :: (b' ++ (a.text ++ tail))

theorem plainLine_eq (a : Assignment) : a.plainLine = a.spelled [' '] [' '] [] := by
  simp [plainLine, spelled]

theorem oneLine_spelled (h : a.Writable) {b b' : List Char} (hb : Gap b) (hb' : Gap b')
    (ht : Trailer tail) : '\n' ∉ a.spelled b b' tail := by
  simp only [spelled, List.mem_append, List.mem_cons, not_or]
  exact ⟨⟨a.setting.name_key.not_mem (by decide), hb.oneLine⟩, by decide, hb'.oneLine,
    oneLine_text h, ht.oneLine⟩

end Assignment

namespace Config

/-- The lines write the settings of `c` one after another, as they are read from the group `g` on. A
setting is written under the header of its group or with the group in front. -/
inductive Writes (c : Config) : List Char → List (List Char) → List Setting → Prop
  | nothing {g : List Char} : Writes c g [] []
  | empty {g b : List Char} {ls : List (List Char)} {ss : List Setting} (gap : Gap b)
      (more : Writes c g ls ss) : Writes c g (b :: ls) ss
  | header {g tail : List Char} {ls : List (List Char)} {ss : List Setting} (s : Setting)
      (trailer : Trailer tail) (more : Writes c s.group.toList ls ss) :
      Writes c g ((headerLine s.group ++ tail) :: ls) ss
  | grouped {s : Setting} {b b' tail : List Char} {ls : List (List Char)} {ss : List Setting}
      (before : Gap b) (behind : Gap b') (trailer : Trailer tail)
      (more : Writes c s.group.toList ls ss) :
      Writes c s.group.toList ((c.get s).spelled b b' tail :: ls) (s :: ss)
  | qualified {g : List Char} {s : Setting} {b b' tail : List Char} {ls : List (List Char)}
      {ss : List Setting} (before : Gap b) (behind : Gap b') (trailer : Trailer tail)
      (more : Writes c g ls ss) :
      Writes c g ((s.group.toList ++ '.' :: (c.get s).spelled b b' tail) :: ls) (s :: ss)

/-- The strings of the configuration can be written between quotes on one line. -/
structure Writable (c : Config) : Prop where
  name : '"' ∉ c.serviceName.toList ∧ '\n' ∉ c.serviceName.toList
  address : '"' ∉ c.bindAddress.toList ∧ '\n' ∉ c.bindAddress.toList

variable {c : Config} {g : List Char} {ls : List (List Char)} {ss : List Setting}

theorem Writable.get (h : c.Writable) (s : Setting) : (c.get s).Writable := by
  cases s with
  | serviceName => exact h.name
  | bindAddress => exact h.address
  | memoryLimit | overhead | packetCap | maxFrame | readTimeout | reportInterval => trivial

theorem form_headerLine (s : Setting) {tail : List Char} (ht : Trailer tail) :
    HasForm (headerLine s.group ++ tail) (.header s.group.toList) := by
  rw [headerLine, List.append_assoc]
  exact form_header_name s.name_group.trim_eq (s.name_group.not_mem (by decide)) ht

theorem form_spelled (h : c.Writable) (s : Setting) {b b' tail : List Char} (hb : Gap b)
    (hb' : Gap b') (ht : Trailer tail) :
    HasForm ((c.get s).spelled b b' tail) (.pair none s.key.toList (c.get s).text) ∧
      HasForm (s.group.toList ++ '.' :: (c.get s).spelled b b' tail)
        (.pair (some s.group.toList) s.key.toList (c.get s).text) := by
  have hv := (c.get s).stripComment_text (h.get s) hb'.blank ht
  have hp := form_plain s.name_key hb.blank (b' ++ ((c.get s).text ++ tail))
  have hq := form_qualified s.name_group s.name_key hb.blank (b' ++ ((c.get s).text ++ tail))
  rw [hv] at hp hq
  rw [Assignment.spelled, setting_get]
  exact ⟨hp, hq⟩

theorem read_get (h : c.Writable) (s : Setting) : s.read (c.get s).text = .ok (c.get s) := by
  have hr := Assignment.read_text (h.get s)
  rwa [setting_get] at hr

theorem Writes.oneLine (hw : Writes c g ls ss) (h : c.Writable) : ∀ l ∈ ls, '\n' ∉ l := by
  induction hw with
  | nothing => nofun
  | empty gap more ih => exact List.forall_mem_cons.mpr ⟨gap.oneLine, ih⟩
  | header s trailer more ih =>
    refine List.forall_mem_cons.mpr ⟨?_, ih⟩
    simp only [headerLine, List.mem_append, List.mem_cons, not_or]
    exact ⟨⟨⟨by decide, s.name_group.not_mem (by decide)⟩, by decide⟩, trailer.oneLine⟩
  | @grouped s b b' tail ls ss before behind trailer more ih =>
    exact List.forall_mem_cons.mpr
      ⟨Assignment.oneLine_spelled (h.get s) before behind trailer, ih⟩
  | @qualified g s b b' tail ls ss before behind trailer more ih =>
    refine List.forall_mem_cons.mpr ⟨?_, ih⟩
    rw [List.mem_append, List.mem_cons, not_or, not_or]
    exact ⟨s.name_group.not_mem (by decide), by decide,
      Assignment.oneLine_spelled (h.get s) before behind trailer⟩

/-- One setting more has its value of `c`. -/
theorem get_assigned (c d : Config) (s : Setting) (ss : List Setting) (s' : Setting) :
    (if s' ∈ ss then c.get s' else (d.assign (c.get s)).get s') =
      if s' ∈ s :: ss then c.get s' else d.get s' := by
  rw [get_assign, setting_get]
  by_cases hs : s' = s
  · rw [hs, if_pos rfl, if_pos List.mem_cons_self, ite_self]
  · simp only [hs, ↓reduceIte, List.mem_cons, false_or]

/-- Behind the lines the settings that they write are those of `c`, and the others are as before. -/
theorem Writes.lines (hw : Writes c g ls ss) (h : c.Writable) (r : Reading) (hr : r.group = g)
    (n : Nat) :
    ∃ r', r.lines n ls = .ok r' ∧
      ∀ s, r'.config.get s = if s ∈ ss then c.get s else r.config.get s := by
  induction hw generalizing r n with
  | nothing => exact ⟨r, rfl, fun s => rfl⟩
  | empty gap more ih =>
    obtain ⟨r', hl, hg⟩ := ih r hr (n + 1)
    refine ⟨r', ?_, hg⟩
    rw [Reading.lines, Reading.line_of_blank (.blank gap.blank)]
    exact hl
  | header s trailer more ih =>
    obtain ⟨r', hl, hg⟩ := ih { r with group := s.group.toList } rfl (n + 1)
    refine ⟨r', ?_, hg⟩
    rw [Reading.lines, Reading.line_of_header (form_headerLine s trailer)]
    exact hl
  | @grouped s b b' tail ls ss before behind trailer more ih =>
    obtain ⟨r', hl, hg⟩ := ih { r with config := r.config.assign (c.get s) } hr (n + 1)
    refine ⟨r', ?_, fun s' => ?_⟩
    · rw [Reading.lines, Reading.line_of_pair (form_spelled h s before behind trailer).1
        ⟨hr.symm, rfl⟩ (read_get h s)]
      exact hl
    · rw [hg, get_assigned]
  | @qualified g s b b' tail ls ss before behind trailer more ih =>
    obtain ⟨r', hl, hg⟩ := ih { r with config := r.config.assign (c.get s) } hr (n + 1)
    refine ⟨r', ?_, fun s' => ?_⟩
    · rw [Reading.lines, Reading.line_of_pair (form_spelled h s before behind trailer).2
        ⟨rfl, rfl⟩ (read_get h s)]
      exact hl
    · rw [hg, get_assigned]

/-- A text that writes all eight settings gives the configuration that it was written from. -/
theorem Writes.read (writes : c.Writes [] ls ss) (h : c.Writable) (all : ss.Perm Setting.all) :
    Config.read (Config.text ls) = .ok c := by
  obtain ⟨r, hl, hg⟩ := writes.lines h {} rfl 1
  have hc : r.config = c := by
    apply ext_get
    intro s
    rw [hg, if_pos (all.mem_iff.mpr s.mem_all)]
  rw [read_text_ok (writes.oneLine h) hl, hc]

theorem writes_qualified (c : Config) (g : List Char) (ss : List Setting) :
    c.Writes g (ss.map fun s => (c.get s).qualifiedLine) ss := by
  induction ss with
  | nil => exact .nothing
  | cons s ss ih =>
    rw [List.map_cons, Assignment.qualifiedLine, Assignment.plainLine_eq, setting_get]
    exact .qualified gap_space gap_space trailer_nil ih

/-- The settings of a group under its header. -/
theorem Writes.group (more : ∀ g, c.Writes g ls ss) (s : Setting) (g : List Char) :
    c.Writes g
      ((headerLine s.group :: (Setting.all.filter (·.group = s.group)).map fun q =>
        (c.get q).plainLine) ++ ls)
      (Setting.all.filter (·.group = s.group) ++ ss) := by
  -- Said of all settings of the group, for the induction.
  have hunder : ∀ qs : List Setting, (∀ q ∈ qs, q.group = s.group) →
      c.Writes s.group.toList ((qs.map fun q => (c.get q).plainLine) ++ ls) (qs ++ ss) := by
    intro qs hq
    induction qs with
    | nil => exact more _
    | cons q qs ih =>
      obtain ⟨hg, hq⟩ := List.forall_mem_cons.mp hq
      rw [← hg] at ih ⊢
      rw [List.map_cons, Assignment.plainLine_eq]
      exact .grouped gap_space gap_space trailer_nil (ih fun q' hm => (hq q' hm).trans hg.symm)
  have hlines := hunder (Setting.all.filter (·.group = s.group)) fun q hm => by
    simpa using (List.mem_filter.mp hm).2
  have hh := Writes.header (g := g) s trailer_nil hlines
  rwa [List.append_nil] at hh

theorem writes_grouped (c : Config) (g : List Char) :
    c.Writes g c.groupedLines Setting.all := by
  have metrics := Writes.group (c := c) (fun _ => .nothing) .reportInterval
  have net := Writes.group metrics .bindAddress
  exact Writes.group net .serviceName g

/-- What is written, in either form, is read back. -/
theorem read_write (h : c.Writable) :
    Config.read c.write = .ok c ∧ Config.read (Config.text c.qualifiedLines) = .ok c :=
  ⟨(writes_grouped c []).read h (.refl _), (writes_qualified c [] _).read h (.refl _)⟩

/-- Every configuration can be written and read back: whatever order the eight settings are written
in, each under the header of its group or with the group in front, with whatever blanks and comment
behind it, the text is accepted and gives the configuration, and what the host hands to the service
is its name, overhead and cap. -/
theorem written_configs_read_back (h : c.Writable) (writes : c.Writes [] ls ss)
    (all : ss.Perm Setting.all) :
    ∃ d, Config.read (Config.text ls) = .ok d ∧ d = c ∧
      d.hostContext =
        ⟨c.serviceName, { overhead := c.overhead.toNat, cap := c.packetCap.toNat }⟩ :=
  ⟨c, writes.read h all, rfl, rfl⟩

theorem written_configs_read_back_with_comments :
    let c : Config :=
      { serviceName := " [é] # = \r", bindAddress := "", memoryLimit := -9223372036854775808 }
    ∃ d, Config.read (Config.text
        ((headerLine "metrics" ++ '#' :: " quiet".toList) ::
          (c.get .reportInterval).spelled [] ['\t']
            ('\t' :: '#' :: " a \"second\" = 0 # of them".toList) ::
          (Setting.all.take 7).map fun s => (c.get s).qualifiedLine)) = .ok d ∧
      d = c ∧ d.hostContext = ⟨" [é] # = \r", { overhead := 4096, cap := 8388608 }⟩ := by
  intro c
  have none : Gap [] := ⟨nofun, List.not_mem_nil⟩
  have tab : Gap ['\t'] := ⟨List.forall_mem_singleton.mpr rfl, by decide⟩
  have behind : Trailer ('\t' :: '#' :: " a \"second\" = 0 # of them".toList) :=
    .intro tab (endsAt_cons '#' _) (by decide)
  have header : Trailer ('#' :: " quiet".toList) := .intro none (endsAt_cons '#' _) (by decide)
  have first := Writes.grouped (c := c) (s := .reportInterval) none tab behind
    (writes_qualified c _ (Setting.all.take 7))
  exact written_configs_read_back ⟨by decide, by decide⟩ (.header .reportInterval header first)
    (by decide)

end Config

end PacketBudget
