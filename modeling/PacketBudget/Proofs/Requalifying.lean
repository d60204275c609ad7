import PacketBudget.Proofs.Spelling

/-!
The two forms of an assignment mean the same. A key that stands under a header may have its group in
front instead, and a key with its group in front may stand under a header of its own. Where every
key has its group in front, only the lines that assign the same key have to keep their order.
-/

namespace PacketBudget

open Text

/-- The right side of an assignment, as it stands on its line. -/
def rightSide (line : List Char) : List Char :=
  match cut? '=' line with
  | some (_, right) => right
  | none => []

/-- `key =` and the right side of `line`. -/
def keyLine (key line : List Char) : List Char := key ++ [' '] ++ '=' :: rightSide line

def groupLine (group : List Char) : List Char := '[' :: group ++ [']']

/-- The lines with the group `g` in force and without headers: each key has its group in front. -/
def qualify (g : List Char) : List (List Char) → List (List Char)
  | [] => []
  | l :: ls =>
    match Line.read l with
    | .ok (.header g') => [] :: qualify g' ls
    | .ok (.pair none key _) => (g ++ '.' :: keyLine key l) :: qualify g ls
    | _ => l :: qualify g ls

/-- The lines with every key under a header. Behind a key that had its group in front comes the
header that was in force before it, if there was one. -/
def regroup (g : Option (List Char)) : List (List Char) → List (List Char)
  | [] => []
  | l :: ls =>
    match Line.read l with
    | .ok (.header g') => l :: regroup (some g') ls
    | .ok (.pair (some own) key _) =>
      [groupLine own, keyLine key l] ++ (g.map groupLine).toList ++ regroup g ls
    | _ => l :: regroup g ls

/-- The setting of a line when no header is in force. -/
def setting? (line : List Char) : Option Setting :=
  match Line.read line with
  | .ok (.pair group key _) => Setting.find? (group.getD []) key
  | _ => none

/-- Lines in another order, in which those of one setting stand as before. -/
structure Reorders (ls ms : List (List Char)) : Prop where
  perm : ls.Perm ms
  order : ∀ s : Setting,
    (ls.filter fun l => setting? l = some s) = ms.filter fun l => setting? l = some s

variable {line own key value g : List Char} {group : Option (List Char)}

theorem stripComment_rightSide (form : HasForm line (.pair group key value)) :
    stripComment (trim (rightSide line)) = value := by
  cases form with
  | @assignment a left right key group indent start first names =>
    have hleft : '=' ∉ a ++ left := List.not_mem_append (indent.not_mem (by decide)) first
    rw [rightSide, ← List.append_assoc, cut?_append hleft]

theorem oneLine_rightSide (h : '\n' ∉ line) : '\n' ∉ rightSide line := by
  unfold rightSide
  split
  · rename_i hc
    exact fun hm => h (mem_of_cut? hc hm)
  · exact List.not_mem_nil

theorem oneLine_keyLine (hk : Name key) (h : '\n' ∉ line) : '\n' ∉ keyLine key line := by
  simp only [keyLine, List.mem_append, List.mem_cons, not_or]
  exact ⟨⟨hk.not_mem (by decide), by decide⟩, by decide, oneLine_rightSide h⟩

/-- The name of a group as a header may have it. -/
structure Title (g : List Char) : Prop where
  tight : trim g = g
  plain : '#' ∉ g
  oneLine : '\n' ∉ g

theorem Name.title (h : Name g) : Title g :=
  ⟨h.trim_eq, h.not_mem (by decide), h.not_mem (by decide)⟩

theorem Title.form (h : Title g) : HasForm (groupLine g) (.header g) :=
  form_header_name h.tight h.plain trailer_nil

theorem Title.oneLine_groupLine (h : Title g) : '\n' ∉ groupLine g := by
  simp only [groupLine, List.mem_append, List.mem_cons, not_or]
  exact ⟨⟨by decide, h.oneLine⟩, by decide⟩

theorem title_of_form (form : HasForm line (.header g)) (h : '\n' ∉ line) : Title g := by
  cases form with
  | @header a b name rest indent plain behind comment =>
    obtain ⟨p, q, -, -, hn, -⟩ := exists_trim name
    have hmem : ∀ c ∈ trim name, c ∈ name := by
      intro c hc
      rw [hn]
      exact List.mem_append_right p (List.mem_append_left q hc)
    refine ⟨trim_trim name, fun hm => plain (hmem _ hm), fun hm => h ?_⟩
    simp [hmem _ hm]

namespace Config

variable {a : Assignment}

theorem Assigns.exists_form (h : Assigns g line a) :
    ∃ group key value, HasForm line (.pair group key value) := by
  cases h with
  | intro form => exact ⟨_, _, _, form⟩

/-- What is assigned by a line of known form. -/
theorem Assigns.known (h : Assigns g line a) (form : HasForm line (.pair group key value)) :
    ∃ s : Setting, s.group.toList = group.getD g ∧ s.key.toList = key ∧ s.read value = .ok a := by
  cases h with
  | @intro own' key' value' s a form' grouped known valid =>
    cases form.unique form'
    exact ⟨s, known.1, known.2, valid⟩

theorem assigns_of_form {s : Setting}
    (form : HasForm line (.pair group s.key.toList value)) (hs : s.group.toList = group.getD g)
    (valid : s.read value = .ok a) : Assigns g line a :=
  .intro form (hs ▸ s.name_group.some) ⟨hs, rfl⟩ valid

/-- With the group in front a key is assigned as it was under the header. -/
theorem Assigns.qualified (h : Assigns g line a) (form : HasForm line (.pair none key value)) :
    (∀ g', Assigns g' (g ++ '.' :: keyLine key line) a) ∧ Name g ∧ Name key := by
  obtain ⟨s, rfl, rfl, valid⟩ := h.known form
  have hq := form_qualified s.name_group s.name_key gap_space.blank (rightSide line)
  rw [stripComment_rightSide form] at hq
  exact ⟨fun g' => assigns_of_form hq rfl valid, s.name_group, s.name_key⟩

/-- Under the header of its group a key is assigned as it was with the group in front. -/
theorem Assigns.grouped (h : Assigns g line a) (form : HasForm line (.pair (some own) key value)) :
    Assigns own (keyLine key line) a ∧ Name own ∧ Name key := by
  obtain ⟨s, rfl, rfl, valid⟩ := h.known form
  have hp := form_plain s.name_key gap_space.blank (rightSide line)
  rw [stripComment_rightSide form] at hp
  exact ⟨assigns_of_form hp rfl valid, s.name_group, s.name_key⟩

/-- A key with its group in front is assigned under every header. -/
theorem Assigns.anywhere (h : Assigns g line a)
    (form : HasForm line (.pair (some own) key value)) (g' : List Char) : Assigns g' line a := by
  obtain ⟨s, hs, rfl, valid⟩ := h.known form
  exact assigns_of_form form hs valid

/-- A line that means the same wherever it stands. -/
inductive Standing (line : List Char) : Prop
  | blank (form : HasForm line .blank)
  | assignment {a : Assignment} (assigns : ∀ g, Assigns g line a)

/-- What a line assigns when no header is in force. -/
def given? (line : List Char) : Option Assignment :=
  match Line.read line with
  | .ok (.pair group key value) => (Assignment.read (group.getD []) key value).toOption
  | _ => none

theorem given?_of_blank (form : HasForm line .blank) : given? line = none := by
  rw [given?, Line.read_of_form form]

theorem given?_of_assigns (h : Assigns [] line a) : given? line = some a := by
  cases h with
  | intro form grouped known valid =>
    have hr := Assignment.read_ok_iff.mpr ⟨grouped, _, known, valid⟩
    simp only [given?, Line.read_of_form form, hr]
    rfl

theorem setting?_eq (h : Standing line) : setting? line = (given? line).map Assignment.setting := by
  cases h with
  | blank form =>
    rw [given?_of_blank form, setting?, Line.read_of_form form]
    rfl
  | assignment assigns =>
    rw [given?_of_assigns (assigns [])]
    cases assigns [] with
    | intro form grouped known valid =>
      simp only [setting?, Line.read_of_form form, Setting.find?_eq_some_iff.mpr known,
        Option.map_some, Setting.setting_read valid]

theorem filter_given {ls : List (List Char)} (h : ∀ l ∈ ls, Standing l) (s : Setting) :
    (ls.filterMap given?).filter (·.setting = s) =
      (ls.filter fun l => setting? l = some s).filterMap given? := by
  induction ls with
  | nil => rfl
  | cons l ls ih =>
    obtain ⟨hl, hls⟩ := List.forall_mem_cons.mp h
    have hs := setting?_eq hl
    cases hg : given? l with
    | none =>
      rw [hg] at hs
      rw [List.filterMap_cons_none hg, List.filter_cons_of_neg (by simp [hs]), ih hls]
    | some a =>
      rw [hg] at hs
      rw [List.filterMap_cons_some hg]
      by_cases ha : a.setting = s
      · rw [List.filter_cons_of_pos (by simpa using ha),
          List.filter_cons_of_pos (by simp [hs, ha]), List.filterMap_cons_some hg, ih hls]
      · rw [List.filter_cons_of_neg (by simpa using ha),
          List.filter_cons_of_neg (by simp [hs, ha]), ih hls]

/-- Lines of different settings may be put in any order. -/
theorem reorders_of_nodup {ls ms : List (List Char)} (nodup : (ls.filterMap setting?).Nodup)
    (perm : ls.Perm ms) : Reorders ls ms := by
  refine ⟨perm, fun s => ?_⟩
  have hp := perm.filter fun l => setting? l = some s
  have hl : (ls.filter fun l => setting? l = some s).length ≤ 1 := by
    have hc := List.nodup_iff_count.mp nodup s
    have hb : (fun l => decide (setting? l = some s)) = fun l => setting? l == some s := by
      funext l
      rw [Bool.eq_iff_iff, decide_eq_true_iff, beq_iff_eq]
    rwa [hb, ← List.countP_eq_length_filter, ← List.count_filterMap]
  generalize (ls.filter fun l => setting? l = some s) = xs at hp hl
  match xs with
  | [] => exact (List.nil_perm.mp hp).symm
  | [x] => exact List.singleton_perm.mp hp
  | x :: y :: xs => simp at hl

/-- After some assignments a setting has the last value that it was given. -/
theorem get_foldl_assign (as : List Assignment) (c : Config) (s : Setting) :
    (as.foldl Config.assign c).get s = (as.filter (·.setting = s)).getLast?.getD (c.get s) := by
  induction as generalizing c with
  | nil => rfl
  | cons a as ih =>
    rw [List.foldl_cons, ih, get_assign]
    by_cases ha : a.setting = s
    · rw [List.filter_cons_of_pos (by simpa using ha), List.getLast?_cons, if_pos ha.symm]
      rfl
    · rw [List.filter_cons_of_neg (by simpa using ha), if_neg fun h => ha h.symm]

end Config

namespace Reading

open Config

variable {r r₁ r' q : Reading} {a : Assignment} {n : Nat} {ls : List (List Char)}

theorem line_of_assigns (h : Assigns r.group line a) :
    r.line line = .ok { r with config := r.config.assign a } := by
  cases h with
  | intro form grouped known valid => exact line_of_pair form known valid

/-- Lines that mean the same anywhere assign what each of them gives. -/
theorem lines_standing (h : ∀ l ∈ ls, Standing l) (r : Reading) (n : Nat) :
    r.lines n ls =
      .ok { r with config := (ls.filterMap given?).foldl Config.assign r.config } := by
  induction ls generalizing r n with
  | nil => rfl
  | cons l ls ih =>
    obtain ⟨hl, hls⟩ := List.forall_mem_cons.mp h
    rw [Reading.lines]
    cases hl with
    | blank form =>
      rw [line_of_blank form, List.filterMap_cons_none (given?_of_blank form)]
      exact ih hls r (n + 1)
    | @assignment a assigns =>
      rw [line_of_assigns (assigns r.group),
        List.filterMap_cons_some (given?_of_assigns (assigns []))]
      exact ih hls { r with config := r.config.assign a } (n + 1)

/-- Lines that mean the same anywhere may be put in another order. -/
theorem lines_reorders {ms : List (List Char)} (h : ∀ l ∈ ls, Standing l)
    (reorders : Reorders ls ms) (r : Reading) (n : Nat) : r.lines n ms = r.lines n ls := by
  have hm : ∀ l ∈ ms, Standing l := fun l hl => h l (reorders.perm.mem_iff.mpr hl)
  rw [lines_standing h, lines_standing hm]
  congr 2
  apply ext_get
  intro s
  rw [get_foldl_assign, get_foldl_assign, filter_given h, filter_given hm, reorders.order]

/-- A line that is read may be replaced by one without a header in force. -/
theorem qualify_step (h : r.line line = .ok r₁) (ls : List (List Char)) :
    ∃ m, qualify r.group (line :: ls) = m :: qualify r₁.group ls ∧ Standing m ∧
      ('\n' ∉ line → '\n' ∉ m) ∧
      ∀ q : Reading, q.config = r.config → q.line m = .ok { q with config := r₁.config } := by
  rcases line_cases h with ⟨form, rfl⟩ | ⟨g, form, rfl⟩ | ⟨a, ha, rfl⟩
  · refine ⟨line, ?_, .blank form, id, fun q hq => ?_⟩
    · simp only [qualify, Line.read_of_form form]
    · rw [line_of_blank form, ← hq]
  · have hempty : HasForm [] .blank := .blank nofun
    refine ⟨[], ?_, .blank hempty, fun _ => List.not_mem_nil, fun q hq => ?_⟩
    · simp only [qualify, Line.read_of_form form]
    · rw [line_of_blank hempty, ← hq]
  · obtain ⟨group, key, value, form⟩ := ha.exists_form
    cases group with
    | none =>
      obtain ⟨hq, hg, hk⟩ := ha.qualified form
      refine ⟨_, ?_, .assignment hq, fun hl => ?_, fun q hc => ?_⟩
      · simp only [qualify, Line.read_of_form form]
      · rw [List.mem_append, List.mem_cons, not_or, not_or]
        exact ⟨hg.not_mem (by decide), by decide, oneLine_keyLine hk hl⟩
      · rw [line_of_assigns (hq q.group), hc]
    | some own =>
      have hany := ha.anywhere form
      refine ⟨line, ?_, .assignment hany, id, fun q hc => ?_⟩
      · simp only [qualify, Line.read_of_form form]
      · rw [line_of_assigns (hany q.group), hc]

theorem lines_qualify (h : r.lines n ls = .ok r') (q : Reading) (hq : q.config = r.config)
    (m : Nat) :
    (∀ l ∈ qualify r.group ls, Standing l) ∧
      ((∀ l ∈ ls, '\n' ∉ l) → ∀ l ∈ qualify r.group ls, '\n' ∉ l) ∧
      q.lines m (qualify r.group ls) = .ok { q with config := r'.config } := by
  induction ls generalizing r n q m with
  | nil =>
    cases h
    refine ⟨nofun, fun _ => nofun, ?_⟩
    rw [← hq]
    rfl
  | cons l ls ih =>
    obtain ⟨r₁, hl, hls⟩ := exists_of_lines_cons h
    obtain ⟨m', hm, standing, oneLine, hline⟩ := qualify_step hl ls
    obtain ⟨hstanding, honeLine, hlines⟩ := ih hls { q with config := r₁.config } rfl (m + 1)
    rw [hm]
    refine ⟨List.forall_mem_cons.mpr ⟨standing, hstanding⟩, fun hn => ?_, ?_⟩
    · obtain ⟨hn₁, hn₂⟩ := List.forall_mem_cons.mp hn
      exact List.forall_mem_cons.mpr ⟨oneLine hn₁, honeLine hn₂⟩
    · rw [Reading.lines, hline q hq]
      exact hlines

/-- `q` has read what `r` has read. The header in force is `g`, if there is one; `q` may be under
another one if there is none. -/
structure Regrouped (g : Option (List Char)) (r q : Reading) : Prop where
  config : q.config = r.config
  group : r.group = g.getD []
  under : ∀ t ∈ g, q.group = t ∧ Title t

theorem Regrouped.group_eq (h : Regrouped group r q) (hne : r.group ≠ []) : q.group = r.group := by
  cases group with
  | none => exact absurd h.group hne
  | some t => exact (h.under t rfl).1.trans h.group.symm

theorem Regrouped.assigned (h : Regrouped group r q) (a : Assignment) :
    Regrouped group { r with config := r.config.assign a }
      { q with config := q.config.assign a } :=
  ⟨congrArg (·.assign a) h.config, h.group, h.under⟩

/-- The header that was in force comes back behind a key that had its group in front. -/
theorem Regrouped.restored (h : Regrouped group r q) (own : List Char) (n : Nat) :
    ∃ q', Reading.lines { q with group := own } n (group.map groupLine).toList = .ok q' ∧
      Regrouped group r q' := by
  cases group with
  | none => exact ⟨_, rfl, h.config, h.group, nofun⟩
  | some t =>
    obtain ⟨-, ht⟩ := h.under t rfl
    refine ⟨{ q with group := t }, ?_, h.config, h.group, ?_⟩
    · show Reading.lines { q with group := own } n [groupLine t] = _
      rw [Reading.lines, line_of_header ht.form]
      rfl
    · rintro _ ⟨⟩
      exact ⟨rfl, ht⟩

/-- A key is assigned under a header of its own, with the header that was in force behind it. -/
theorem Regrouped.headed (h : Regrouped group r q) (hown : Name own)
    (ha : Assigns own (keyLine key line) a) (n : Nat) :
    ∃ q', q.lines n ([groupLine own, keyLine key line] ++ (group.map groupLine).toList) = .ok q' ∧
      Regrouped group { r with config := r.config.assign a } q' := by
  obtain ⟨q', hl, hq'⟩ := (h.assigned a).restored own (n + 1 + 1)
  refine ⟨q', ?_, hq'⟩
  have hheader : q.line (groupLine own) = .ok { q with group := own } :=
    line_of_header hown.title.form
  have hkey : Reading.line { q with group := own } (keyLine key line) =
      .ok { q with group := own, config := q.config.assign a } := line_of_assigns ha
  simp only [List.cons_append, List.nil_append, Reading.lines, hheader, hkey]
  exact hl

theorem Regrouped.oneLine_headed (h : Regrouped group r q) (hown : Name own) (hkey : Name key)
    (hn : '\n' ∉ line) :
    ∀ l ∈ [groupLine own, keyLine key line] ++ (group.map groupLine).toList, '\n' ∉ l := by
  intro l hl
  simp only [List.mem_append, List.mem_cons, Option.mem_toList, Option.map_eq_some_iff] at hl
  rcases hl with (rfl | rfl | hl) | ⟨t, ht, rfl⟩
  · exact hown.title.oneLine_groupLine
  · exact oneLine_keyLine hkey hn
  · cases hl
  · exact (h.under t ht).2.oneLine_groupLine

/-- A line that is read may be replaced by lines with every key under a header. -/
theorem regroup_step (hg : Regrouped group r q) (h : r.line line = .ok r₁) (hn : '\n' ∉ line)
    (ls : List (List Char)) (n : Nat) :
    ∃ ms group₁ q₁, regroup group (line :: ls) = ms ++ regroup group₁ ls ∧
      (∀ l ∈ ms, '\n' ∉ l) ∧ q.lines n ms = .ok q₁ ∧ Regrouped group₁ r₁ q₁ := by
  have single : ∀ q₁, q.line line = .ok q₁ → q.lines n [line] = .ok q₁ := by
    intro q₁ hl
    rw [Reading.lines, hl]
    rfl
  rcases line_cases h with ⟨form, rfl⟩ | ⟨g, form, rfl⟩ | ⟨a, ha, rfl⟩
  · refine ⟨[line], group, q, ?_, List.forall_mem_singleton.mpr hn,
      single q (line_of_blank form), hg⟩
    simp only [regroup, Line.read_of_form form, List.singleton_append]
  · refine ⟨[line], some g, { q with group := g }, ?_, List.forall_mem_singleton.mpr hn,
      single _ (line_of_header form), hg.config, rfl, ?_⟩
    · simp only [regroup, Line.read_of_form form, List.singleton_append]
    · rintro _ ⟨⟩
      exact ⟨rfl, title_of_form form hn⟩
  · obtain ⟨own?, key, value, form⟩ := ha.exists_form
    cases own? with
    | none =>
      -- The group is that of a header, since a key has none otherwise.
      obtain ⟨-, hname, -⟩ := ha.qualified form
      have hunder := hg.group_eq hname.some
      refine ⟨[line], group, { q with config := q.config.assign a }, ?_,
        List.forall_mem_singleton.mpr hn, single _ (line_of_assigns (hunder ▸ ha)), hg.assigned a⟩
      simp only [regroup, Line.read_of_form form, List.singleton_append]
    | some own =>
      obtain ⟨hgrouped, hown, hkey⟩ := ha.grouped form
      obtain ⟨q₁, hl, hg₁⟩ := hg.headed hown hgrouped n
      refine ⟨_, group, q₁, ?_, hg.oneLine_headed hown hkey hn, hl, hg₁⟩
      simp only [regroup, Line.read_of_form form]

theorem lines_regroup (hg : Regrouped group r q) (h : r.lines n ls = .ok r')
    (hn : ∀ l ∈ ls, '\n' ∉ l) (m : Nat) :
    (∀ l ∈ regroup group ls, '\n' ∉ l) ∧
      ∃ q', q.lines m (regroup group ls) = .ok q' ∧ q'.config = r'.config := by
  induction ls generalizing group r q n m with
  | nil =>
    cases h
    exact ⟨nofun, q, rfl, hg.config⟩
  | cons l ls ih =>
    obtain ⟨r₁, hl, hls⟩ := exists_of_lines_cons h
    obtain ⟨hn, hns⟩ := List.forall_mem_cons.mp hn
    obtain ⟨ms, group₁, q₁, hms, honeLine, hq, hg₁⟩ := regroup_step hg hl hn ls m
    obtain ⟨hrest, q', hlines, hc⟩ := ih hg₁ hls hns (m + ms.length)
    rw [hms, lines_append_of_ok hq]
    exact ⟨List.forall_mem_append.mpr ⟨honeLine, hrest⟩, q', hlines, hc⟩

end Reading

namespace Config

variable {text : String} {c : Config}

/-- A key under a header means the same with the group of the header in front, and a key with its
group in front means the same under a header of its own. Where every key has its group in front, the
lines may be put in any order in which those of one setting stand as before. -/
theorem headers_and_qualified_keys_mean_the_same (h : Config.read text = .ok c) :
    Config.read (Config.text (qualify [] (lines text.toList))) = .ok c ∧
      Config.read (Config.text (regroup none (lines text.toList))) = .ok c ∧
      ∀ ms, Reorders (qualify [] (lines text.toList)) ms →
        Config.read (Config.text ms) = .ok c := by
  obtain ⟨r, hr, rfl⟩ := exists_of_read h
  have hn : ∀ l ∈ lines text.toList, '\n' ∉ l := fun l => not_mem_of_mem_lines
  obtain ⟨standing, oneLine, hqualified⟩ := Reading.lines_qualify hr {} rfl 1
  have start : Reading.Regrouped none {} {} := ⟨rfl, rfl, nofun⟩
  obtain ⟨oneLine', q, hq, hc⟩ := Reading.lines_regroup start hr hn 1
  refine ⟨?_, ?_, fun ms reorders => ?_⟩
  · rw [read_text_ok (oneLine hn) hqualified]
  · rw [read_text_ok oneLine' hq, hc]
  · have honeLine : ∀ l ∈ ms, '\n' ∉ l := fun l hl => oneLine hn l (reorders.perm.mem_iff.mpr hl)
    have hlines := Reading.lines_reorders standing reorders {} 1
    rw [read_text_ok honeLine (hlines.trans hqualified)]

/-- A header in another place and a group in front of a key, and the keys in another order. -/
theorem headers_and_qualified_keys_mean_the_same_of_four_lines :
    let text := 
      "[ service ] # first\nname = \"a.b=c\"\nnet.max_frame_bytes=7\npacket_mem_limit = -1"
    let c : Config := { serviceName := "a.b=c", maxFrame := 7, memoryLimit := -1 }
    let qualified := [[], "service.name = \"a.b=c\"".toList, "net.max_frame_bytes=7".toList,
      "service.packet_mem_limit = -1".toList]
    let regrouped := ["[ service ] # first".toList, "name = \"a.b=c\"".toList, "[net]".toList,
      "max_frame_bytes =7".toList, "[service]".toList, "packet_mem_limit = -1".toList]
    Config.read text = .ok c ∧
      qualify [] (lines text.toList) = qualified ∧ Config.read (Config.text qualified) = .ok c ∧
      regroup none (lines text.toList) = regrouped ∧
      Config.read (Config.text regrouped) = .ok c ∧
      Config.read (Config.text qualified.reverse) = .ok c := by
  intro text c qualified regrouped
  have hr : Config.read text = .ok c := by
    unfold text c
    rfl
  have hq : qualify [] (lines text.toList) = qualified := by
    unfold text
    rfl
  have hg : regroup none (lines text.toList) = regrouped := by
    unfold text
    rfl
  obtain ⟨hqualified, hregrouped, horder⟩ := headers_and_qualified_keys_mean_the_same hr
  rw [hq] at hqualified horder
  rw [hg] at hregrouped
  have reorders : Reorders qualified qualified.reverse :=
    reorders_of_nodup (by decide) (List.reverse_perm qualified).symm
  exact ⟨hr, hq, hqualified, hg, hregrouped, horder _ reorders⟩

end Config

end PacketBudget
