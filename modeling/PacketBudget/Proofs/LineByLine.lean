import PacketBudget.Proofs.LineForms

/-!
Texts read line by line. Whether a line is accepted depends on it and on the last header before it;
the first line that is not accepted is the fault, whatever follows it. A text that is accepted gives
each setting the value of the last line that assigns it, and leaves the others as they are.
-/

namespace PacketBudget

open Text (lines)

theorem Text.lines_append (a b : List Char) : lines (a ++ '\n' :: b) = lines a ++ lines b := by
  fun_induction lines a with
  | case1 => rfl
  | case2 cs ih => rw [List.cons_append, lines, ih, List.cons_append]
  | case3 c cs _ hl => exact absurd hl (lines_ne_nil cs)
  | case4 c cs hc l ls hl ih =>
    rw [List.cons_append, lines, ih, hl]
    · rfl
    · exact hc

namespace Setting

variable {s : Setting} {group key value : List Char} {a : Assignment}

theorem find?_eq_some_iff :
    find? group key = some s ↔ s.group.toList = group ∧ s.key.toList = key := by
  constructor
  · intro h
    have hs := List.find?_some h
    simpa using hs
  · rintro ⟨rfl, rfl⟩
    exact find?_group_key s

theorem setting_read (h : s.read value = .ok a) : a.setting = s := by
  cases s with
  | serviceName | bindAddress =>
    cases h
    rfl
  | memoryLimit =>
    rw [read] at h
    cases hr : Text.readInt64 value with
    | error f => rw [hr] at h; cases h
    | ok v => rw [hr] at h; cases h; rfl
  | overhead | packetCap | maxFrame | readTimeout | reportInterval =>
    rw [read] at h
    cases hr : Text.readUInt64 value with
    | error f => rw [hr] at h; cases h
    | ok v => rw [hr] at h; cases h; rfl

end Setting

namespace Config

/-- The group of the last header among the lines, empty if there is none. -/
inductive LastHeader : List (List Char) → List Char → Prop
  | none {ls : List (List Char)} (none : ∀ line ∈ ls, ∀ g, ¬ HasForm line (.header g)) :
      LastHeader ls []
  | header {ls more : List (List Char)} {line group : List Char}
      (form : HasForm line (.header group))
      (last : ∀ line ∈ more, ∀ g, ¬ HasForm line (.header g)) :
      LastHeader (ls ++ line :: more) group

/-- In the group `group` the line assigns a key of its group a value that it can have. -/
inductive Assigns (group line : List Char) : Assignment → Prop
  | intro {own : Option (List Char)} {key value : List Char} {s : Setting} {a : Assignment}
      (form : HasForm line (.pair own key value)) (grouped : own.getD group ≠ [])
      (known : s.group.toList = own.getD group ∧ s.key.toList = key)
      (valid : s.read value = .ok a) : Assigns group line a

/-- What a line in the group `group` may be. -/
inductive Acceptable (group line : List Char) : Prop
  /-- Blank, or a comment. -/
  | blank (form : HasForm line .blank)
  | header {g : List Char} (form : HasForm line (.header g))
  | assignment {a : Assignment} (assigns : Assigns group line a)

/-- Each line may stand under the last header before it. -/
def Accepted (ls : List (List Char)) : Prop :=
  ∀ pre line post, ls = pre ++ line :: post →
    ∃ group, LastHeader pre group ∧ Acceptable group line

/-- The line behind `pre` makes an assignment. -/
def Makes (ls pre : List (List Char)) (a : Assignment) : Prop :=
  ∃ line post group, ls = pre ++ line :: post ∧ LastHeader pre group ∧ Assigns group line a

/-- The value of a setting by the last line that assigns it, or else by default. -/
inductive LastGiven (ls : List (List Char)) (s : Setting) : Assignment → Prop
  | default (none : ∀ pre a, Makes ls pre a → a.setting ≠ s) : LastGiven ls s (({} : Config).get s)
  | line {pre : List (List Char)} {a : Assignment} (makes : Makes ls pre a)
      (setting : a.setting = s)
      (last : ∀ pre' a', Makes ls pre' a' → a'.setting = s → pre'.length ≤ pre.length) :
      LastGiven ls s a

variable {ls pre post more : List (List Char)} {line group g : List Char} {a b : Assignment}
variable {s : Setting} {v : Assignment}

theorem LastHeader.unique {ms : List (List Char)} (h : LastHeader ls group) (h' : LastHeader ms g)
    (he : ls = ms) : group = g := by
  cases h with
  | none none =>
    cases h' with
    | none => rfl
    | @header ls' more' line' g form last =>
      subst he
      exact absurd form (none line' (List.mem_append_right ls' List.mem_cons_self) _)
  | @header ls more line group form last =>
    cases h' with
    | none none =>
      subst he
      exact absurd form (none line (List.mem_append_right ls List.mem_cons_self) _)
    | @header ls' more' line' g form' last' =>
      rcases List.append_eq_append_iff.mp he with ⟨z, -, hz⟩ | ⟨z, -, hz⟩
      · cases z with
        | nil =>
          obtain ⟨rfl, -⟩ := List.cons.inj hz
          cases form.unique form'
          rfl
        | cons x z =>
          obtain ⟨-, rfl⟩ := List.cons.inj hz
          exact absurd form' (last line' (List.mem_append_right z List.mem_cons_self) _)
      · cases z with
        | nil =>
          obtain ⟨rfl, -⟩ := List.cons.inj hz
          cases form.unique form'
          rfl
        | cons x z =>
          obtain ⟨-, rfl⟩ := List.cons.inj hz
          exact absurd form (last' line (List.mem_append_right z List.mem_cons_self) _)

theorem LastHeader.snoc (h : LastHeader ls group) (other : ∀ g, ¬ HasForm line (.header g)) :
    LastHeader (ls ++ [line]) group := by
  cases h with
  | none none =>
    apply LastHeader.none
    intro x hx
    rcases List.mem_append.mp hx with hx | hx
    · exact none x hx
    · obtain rfl := List.mem_singleton.mp hx
      exact other
  | @header ls more header group form last =>
    rw [List.append_assoc, List.cons_append]
    apply LastHeader.header form
    intro x hx
    rcases List.mem_append.mp hx with hx | hx
    · exact last x hx
    · obtain rfl := List.mem_singleton.mp hx
      exact other

theorem lastHeader_snoc (ls : List (List Char)) (form : HasForm line (.header group)) :
    LastHeader (ls ++ [line]) group :=
  .header form nofun

theorem Assigns.unique (h : Assigns group line a) (h' : Assigns group line b) : a = b := by
  cases h with
  | intro form grouped known valid =>
    cases h' with
    | intro form' grouped' known' valid' =>
      cases form.unique form'
      have hs := Setting.find?_eq_some_iff.mpr known
      rw [Setting.find?_eq_some_iff.mpr known'] at hs
      cases hs
      rw [valid] at valid'
      cases valid'
      rfl

/-- A part of the lines with one more is one of the lines before or all of them. -/
theorem split_snoc {x : List Char} (h : ls ++ [x] = pre ++ line :: post) :
    (∃ post', ls = pre ++ line :: post') ∨ pre = ls ∧ line = x := by
  rcases List.eq_nil_or_concat post with rfl | ⟨post', y, rfl⟩
  · obtain ⟨hp, hl⟩ := List.append_inj' h rfl
    cases hl
    exact Or.inr ⟨hp.symm, rfl⟩
  · have h : ls ++ [x] = (pre ++ line :: post') ++ [y] := by
      rw [h, List.concat_eq_append, List.append_assoc, List.cons_append]
    exact Or.inl ⟨post', (List.append_inj' h rfl).1⟩

theorem Accepted.snoc (h : Accepted ls) (hg : LastHeader ls group)
    (ha : Acceptable group line) : Accepted (ls ++ [line]) := by
  intro pre x post he
  rcases split_snoc he with ⟨post', he⟩ | ⟨rfl, rfl⟩
  · exact h pre x post' he
  · exact ⟨group, hg, ha⟩

theorem Makes.snoc (h : Makes ls pre a) (line : List Char) : Makes (ls ++ [line]) pre a := by
  obtain ⟨x, post, g, rfl, hg, ha⟩ := h
  exact ⟨x, post ++ [line], g, by rw [List.append_assoc, List.cons_append], hg, ha⟩

theorem Makes.of_snoc (h : Makes (ls ++ [line]) pre a) :
    Makes ls pre a ∨ pre = ls ∧ ∃ g, LastHeader ls g ∧ Assigns g line a := by
  obtain ⟨x, post, g, he, hg, ha⟩ := h
  rcases split_snoc he with ⟨post', he⟩ | ⟨rfl, rfl⟩
  · exact Or.inl ⟨x, post', g, he, hg, ha⟩
  · exact Or.inr ⟨rfl, g, hg, ha⟩

theorem Makes.length_lt (h : Makes ls pre a) : pre.length < ls.length := by
  obtain ⟨x, post, g, rfl, -, -⟩ := h
  rw [List.length_append, List.length_cons]
  omega

/-- A line that does not assign the setting leaves it with its value. -/
theorem LastGiven.snoc (h : LastGiven ls s v)
    (other : ∀ g a, LastHeader ls g → Assigns g line a → a.setting ≠ s) :
    LastGiven (ls ++ [line]) s v := by
  cases h with
  | default none =>
    apply LastGiven.default
    intro pre a hm
    rcases hm.of_snoc with hm | ⟨-, g, hg, ha⟩
    · exact none pre a hm
    · exact other g a hg ha
  | line makes setting last =>
    apply LastGiven.line (makes.snoc line) setting
    intro pre' a' hm hs
    rcases hm.of_snoc with hm | ⟨-, g, hg, ha⟩
    · exact last pre' a' hm hs
    · exact absurd hs (other g a' hg ha)

theorem lastGiven_snoc (hg : LastHeader ls group) (ha : Assigns group line a) :
    LastGiven (ls ++ [line]) a.setting a := by
  have hm : Makes (ls ++ [line]) ls a := ⟨line, [], group, rfl, hg, ha⟩
  apply LastGiven.line hm rfl
  intro pre' a' hm _
  have hl := hm.length_lt
  rw [List.length_append, List.length_singleton] at hl
  omega

end Config

theorem Assignment.read_ok_iff {group key value : List Char} {a : Assignment} :
    Assignment.read group key value = .ok a ↔
      group ≠ [] ∧ ∃ s : Setting, (s.group.toList = group ∧ s.key.toList = key) ∧
        s.read value = .ok a := by
  unfold Assignment.read
  by_cases hg : group = []
  · simp [hg]
  rw [if_neg hg]
  cases hf : Setting.find? group key with
  | none =>
    simp only [reduceCtorEq, false_iff]
    rintro ⟨-, s, hk, -⟩
    rw [Setting.find?_eq_some_iff.mpr hk] at hf
    cases hf
  | some s =>
    have hk := Setting.find?_eq_some_iff.mp hf
    constructor
    · intro h
      cases hr : s.read value with
      | error f =>
        simp only [hr] at h
        cases h
      | ok b =>
        simp only [hr] at h
        cases h
        exact ⟨hg, s, hk, hr⟩
    · rintro ⟨-, s', hk', hr⟩
      rw [Setting.find?_eq_some_iff.mpr hk'] at hf
      cases hf
      simp only [hr]

namespace Reading

open Config

variable {r r' : Reading} {line : List Char}

/-- What a line does to a reading. -/
theorem line_cases (h : r.line line = .ok r') :
    (HasForm line .blank ∧ r' = r) ∨
      (∃ g, HasForm line (.header g) ∧ r' = { r with group := g }) ∨
      ∃ a, Assigns r.group line a ∧ r' = { r with config := r.config.assign a } := by
  rw [Reading.line] at h
  split at h
  · cases h
  · rename_i hf
    cases h
    exact Or.inl ⟨Line.form_of_read hf, rfl⟩
  · rename_i g hf
    cases h
    exact Or.inr (Or.inl ⟨g, Line.form_of_read hf, rfl⟩)
  · rename_i own key value hf
    split at h
    · cases h
    · rename_i a ha
      cases h
      obtain ⟨hg, s, hk, hr⟩ := Assignment.read_ok_iff.mp ha
      exact Or.inr (Or.inr ⟨a, .intro (Line.form_of_read hf) hg hk hr, rfl⟩)

theorem line_ok_iff : (∃ r', r.line line = .ok r') ↔ Acceptable r.group line := by
  constructor
  · rintro ⟨r', h⟩
    rcases line_cases h with ⟨hf, -⟩ | ⟨g, hf, -⟩ | ⟨a, ha, -⟩
    · exact .blank hf
    · exact .header hf
    · exact .assignment ha
  · intro h
    cases h with
    | blank form => exact ⟨r, by rw [Reading.line, Line.read_of_form form]⟩
    | header form => exact ⟨_, by rw [Reading.line, Line.read_of_form form]⟩
    | @assignment a assigns =>
      cases assigns with
      | intro form grouped known valid =>
        have ha := Assignment.read_ok_iff.mpr ⟨grouped, _, known, valid⟩
        refine ⟨{ r with config := r.config.assign a }, ?_⟩
        simp only [Reading.line, Line.read_of_form form, ha]

/-- What is wrong with a line is wrong whatever has been assigned before it. -/
theorem line_error {f : LineFault} (h : r.line line = .error f) (c : Config) :
    Reading.line { r with config := c } line = .error f := by
  rw [Reading.line] at h ⊢
  split at h
  · exact h
  · cases h
  · cases h
  · split at h
    · rename_i ha
      simp only [ha]
      exact h
    · cases h

/-- A line that assigns a key gives its setting the value and leaves the others as they are. -/
theorem get_line {own : Option (List Char)} {key value : List Char}
    (form : HasForm line (.pair own key value)) (h : r.line line = .ok r') :
    ∃ s : Setting, (s.group.toList = own.getD r.group ∧ s.key.toList = key) ∧
      s.read value = .ok (r'.config.get s) ∧
      ∀ s', s' ≠ s → r'.config.get s' = r.config.get s' := by
  rcases line_cases h with ⟨hf, -⟩ | ⟨g, hf, -⟩ | ⟨a, ha, rfl⟩
  · cases form.unique hf
  · cases form.unique hf
  · cases ha with
    | @intro _ _ _ s _ form' grouped known valid =>
      cases form.unique form'
      have hs := Setting.setting_read valid
      refine ⟨s, known, ?_, fun s' hne => ?_⟩
      · rw [get_assign, if_pos hs.symm]
        exact valid
      · rw [get_assign, hs, if_neg hne]

theorem exists_of_lines_cons {n : Nat} {more : List (List Char)}
    (h : r.lines n (line :: more) = .ok r') :
    ∃ r₁, r.line line = .ok r₁ ∧ r₁.lines (n + 1) more = .ok r' := by
  rw [Reading.lines] at h
  cases hr : r.line line with
  | error f =>
    rw [hr] at h
    cases h
  | ok r₁ =>
    rw [hr] at h
    exact ⟨r₁, rfl, h⟩

/-- The reading stands behind the lines `ls`. -/
structure Behind (ls : List (List Char)) (r : Reading) : Prop where
  group : LastHeader ls r.group
  accepted : Accepted ls
  given : ∀ s, LastGiven ls s (r.config.get s)

variable {ls : List (List Char)}

theorem behind_start : Behind [] {} where
  group := .none nofun
  accepted := by
    intro pre line post h
    simp at h
  given s := by
    apply LastGiven.default
    intro pre a hm
    have hl := hm.length_lt
    simp at hl

theorem Behind.next (h : Behind ls r) (hl : r.line line = .ok r') : Behind (ls ++ [line]) r' := by
  have hacc := h.accepted.snoc h.group (line_ok_iff.mp ⟨r', hl⟩)
  rcases line_cases hl with ⟨hf, rfl⟩ | ⟨g, hf, rfl⟩ | ⟨a, ha, rfl⟩
  · refine ⟨h.group.snoc ?_, hacc, fun s => (h.given s).snoc ?_⟩
    · intro g hg
      cases hf.unique hg
    · rintro g a - ⟨form, -, -, -⟩
      cases hf.unique form
  · refine ⟨lastHeader_snoc ls hf, hacc, fun s => (h.given s).snoc ?_⟩
    rintro g a - ⟨form, -, -, -⟩
    cases hf.unique form
  · refine ⟨h.group.snoc ?_, hacc, fun s => ?_⟩
    · intro g hg
      cases ha with
      | intro form => cases form.unique hg
    · rw [get_assign]
      split
      · rename_i hs
        rw [hs]
        exact lastGiven_snoc h.group ha
      · rename_i hs
        apply (h.given s).snoc
        intro g b hg hb
        obtain rfl := hg.unique h.group rfl
        rw [hb.unique ha]
        exact fun he => hs he.symm

theorem Behind.lines {n : Nat} {more : List (List Char)} (h : Behind ls r)
    (hl : r.lines n more = .ok r') : Behind (ls ++ more) r' := by
  induction more generalizing ls r n with
  | nil =>
    cases hl
    rw [List.append_nil]
    exact h
  | cons l more ih =>
    obtain ⟨t, hr, hl⟩ := exists_of_lines_cons hl
    have hm := ih (h.next hr) hl
    rwa [List.append_assoc, List.singleton_append] at hm

/-- The fault is the first line that is not acceptable under the last header before it. -/
theorem Behind.fault {more : List (List Char)} {f : ConfigFault} (h : Behind ls r)
    (hl : r.lines (ls.length + 1) more = .error f) :
    ∃ pre line post group, ls ++ more = pre ++ line :: post ∧ Accepted pre ∧
      LastHeader pre group ∧ ¬ Acceptable group line ∧ f.line = pre.length + 1 ∧
      ∀ c, Reading.line ⟨group, c⟩ line = .error f.cause := by
  induction more generalizing ls r with
  | nil => cases hl
  | cons l more ih =>
    rw [Reading.lines] at hl
    cases hr : r.line l with
    | error cause =>
      rw [hr] at hl
      cases hl
      refine ⟨ls, l, more, r.group, rfl, h.accepted, h.group, ?_, rfl, line_error hr⟩
      rw [← line_ok_iff, hr]
      rintro ⟨r', hr'⟩
      cases hr'
    | ok t =>
      rw [hr] at hl
      have hm := ih (h.next hr)
      rw [List.length_append, List.length_singleton, List.append_assoc, List.singleton_append] at hm
      exact hm hl

end Reading

namespace Config

variable {text : String} {f : ConfigFault} {c : Config}

theorem exists_of_read (h : Config.read text = .ok c) :
    ∃ r, Reading.lines {} 1 (lines text.toList) = .ok r ∧ r.config = c := by
  rw [Config.read] at h
  cases hr : Reading.lines {} 1 (lines text.toList) with
  | error f =>
    rw [hr] at h
    cases h
  | ok r =>
    rw [hr] at h
    cases h
    exact ⟨r, rfl, rfl⟩

theorem behind_of_read (h : Config.read text = .ok c) :
    ∃ r : Reading, r.config = c ∧ r.Behind (lines text.toList) := by
  obtain ⟨r, hr, rfl⟩ := exists_of_read h
  exact ⟨r, rfl, Reading.behind_start.lines hr⟩

theorem lines_of_read (h : Config.read text = .error f) :
    Reading.lines {} 1 (lines text.toList) = .error f := by
  rw [Config.read] at h
  cases hr : Reading.lines {} 1 (lines text.toList) with
  | error g =>
    rw [hr] at h
    cases h
    rfl
  | ok r =>
    rw [hr] at h
    cases h

theorem read_append (h : Config.read text = .error f) (more : String) :
    Config.read (text ++ "\n" ++ more) = .error f := by
  have hl : lines (text ++ "\n" ++ more).toList = lines text.toList ++ lines more.toList := by
    rw [← Text.lines_append, String.toList_append, String.toList_append]
    simp
  rw [Config.read, hl, Reading.lines_append_of_error (lines_of_read h)]
  rfl

/-- A text is read line by line. It fails if and only if a line is not acceptable under the last
header before it; the fault names the first such line, and stays the same whatever is added. If the
text does not fail, each setting has the value of the last line that assigns it. No line changes a
setting other than its own. -/
theorem texts_are_read_line_by_line :
    (∀ text, (∃ f, Config.read text = .error f) ↔
      ∃ pre line post group, lines text.toList = pre ++ line :: post ∧ LastHeader pre group ∧
        ¬ Acceptable group line) ∧
    (∀ text f, Config.read text = .error f →
      (∃ pre line post group, lines text.toList = pre ++ line :: post ∧ Accepted pre ∧
        LastHeader pre group ∧ ¬ Acceptable group line ∧ f.line = pre.length + 1 ∧
        ∀ c, Reading.line ⟨group, c⟩ line = .error f.cause) ∧
      (LoadFault.malformed f).toIoError =
        ⟨.invalidData, s!"line {f.line}: " ++ f.cause.message⟩ ∧
      ∀ more, Config.read (text ++ "\n" ++ more) = .error f) ∧
    (∀ text c, Config.read text = .ok c → ∀ s, LastGiven (lines text.toList) s (c.get s)) ∧
    ∀ (r r' : Reading) line own key value, HasForm line (.pair own key value) →
      r.line line = .ok r' → ∃ s : Setting,
        (s.group.toList = own.getD r.group ∧ s.key.toList = key) ∧
        s.read value = .ok (r'.config.get s) ∧
        ∀ s', s' ≠ s → r'.config.get s' = r.config.get s' := by
  have hfault : ∀ text f, Config.read text = .error f →
      ∃ pre line post group, lines text.toList = pre ++ line :: post ∧ Accepted pre ∧
        LastHeader pre group ∧ ¬ Acceptable group line ∧ f.line = pre.length + 1 ∧
        ∀ c, Reading.line ⟨group, c⟩ line = .error f.cause :=
    fun text f h => Reading.behind_start.fault (lines_of_read h)
  refine ⟨fun text => ⟨?_, ?_⟩, fun text f h => ⟨hfault text f h, rfl, read_append h⟩,
    ?_, ?_⟩
  · rintro ⟨f, h⟩
    obtain ⟨pre, line, post, group, he, -, hg, hn, -, -⟩ := hfault text f h
    exact ⟨pre, line, post, group, he, hg, hn⟩
  · rintro ⟨pre, line, post, group, he, hg, hn⟩
    cases hr : Config.read text with
    | error f => exact ⟨f, rfl⟩
    | ok c =>
      obtain ⟨r, -, hbehind⟩ := behind_of_read hr
      obtain ⟨g, hg', ha⟩ := hbehind.accepted pre line post he
      obtain rfl := hg.unique hg' rfl
      exact absurd ha hn
  · intro text c h s
    obtain ⟨r, rfl, hbehind⟩ := behind_of_read h
    exact hbehind.given s
  · intro r r' line own key value form h
    exact Reading.get_line form h

/-- A key that nobody knows on the third line, and a name that is given twice. -/
theorem texts_are_read_line_by_line_of_two_texts :
    ∃ f c, Config.read "[service]\nname = \"a\"\nbogus = 1" = .error f ∧ f.line = 3 ∧
      (∀ more, Config.read ("[service]\nname = \"a\"\nbogus = 1" ++ "\n" ++ more) = .error f) ∧
      Config.read "service.name = \"a\" # first\n[service]\nname = b" = .ok c ∧
      LastGiven (lines "service.name = \"a\" # first\n[service]\nname = b".toList) .serviceName
        (.serviceName "b") := by
  have hf : Config.read "[service]\nname = \"a\"\nbogus = 1" =
      .error ⟨3, .unknownKey "service" "bogus"⟩ := rfl
  have hc : Config.read "service.name = \"a\" # first\n[service]\nname = b" =
      .ok { serviceName := "b" } := rfl
  obtain ⟨-, -, hmore⟩ := texts_are_read_line_by_line.2.1 _ _ hf
  exact ⟨_, _, hf, rfl, hmore, hc, texts_are_read_line_by_line.2.2.1 _ _ hc .serviceName⟩

end Config

end PacketBudget
