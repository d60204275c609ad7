import Mathlib.Data.List.Nodup
import PacketBudget.Counters.Exposition
import PacketBudget.Proofs.ReadBack

/-!
Monitoring texts read back. A text is made of groups of three lines: what a metric is about, of
which kind it is, and its sample. There is one group for each counter, one for the bytes in use and
one for the ceiling, and the samples tell these numbers and the service that they are of. So two
services that differ in one of them have different texts.
-/

namespace PacketBudget

namespace Text

variable {acc : Nat} {ds : List Char}

/-- Lines with a line feed behind each, and what is behind the last line feed. -/
theorem lines_ended {ls : List (List Char)} (h : ∀ l ∈ ls, '\n' ∉ l) :
    lines (ls.flatMap (· ++ ['\n'])) = ls ++ [[]] := by
  induction ls with
  | nil => rfl
  | cons l ls ih =>
    obtain ⟨hl, hls⟩ := List.forall_mem_cons.mp h
    rw [List.flatMap_cons, List.append_assoc, List.singleton_append, lines_append,
      lines_of_not_mem hl, ih hls]
    rfl

theorem digitIn?_of_isDigit {c : Char} (h : c.isDigit = true) :
    digitIn? 10 c = some (c.toNat - '0'.toNat) := by
  simp only [Char.isDigit, Bool.and_eq_true, decide_eq_true_eq] at h
  have hlt : c.toNat - '0'.toNat < 10 := by
    have h9 : c.toNat ≤ '9'.toNat := h.2
    have : '9'.toNat = 57 := rfl
    have : '0'.toNat = 48 := rfl
    omega
  have hrange : '0' ≤ c ∧ c ≤ '9' := h
  simp only [digitIn?, hrange, and_self, ↓reduceIte, hlt]

theorem foldlM_digitIn? (hd : ∀ c ∈ ds, c.isDigit = true) :
    ds.foldlM (fun n d => (digitIn? 10 d).map (n * 10 + ·)) acc =
      some (Nat.ofDigitChars 10 ds acc) := by
  induction ds generalizing acc with
  | nil => rfl
  | cons d ds ih =>
    obtain ⟨hd, hds⟩ := List.forall_mem_cons.mp hd
    rw [List.foldlM_cons, digitIn?_of_isDigit hd, Nat.ofDigitChars_cons, Nat.mul_comm]
    exact ih hds

/-- The decimal digits of a number are read as the number, however large it is. -/
theorem numberIn?_decimal (n : Nat) : numberIn? 10 (toString n).toList = some n := by
  obtain ⟨hne, hd⟩ := decimal_digits n
  rw [numberIn?, if_neg hne, foldlM_digitIn? hd, Nat.toString_eq_repr, Nat.toList_repr,
    Nat.ofDigitChars_toDigits (by decide) (by decide)]

theorem Bare.not_mem {d : List Char} (h : Bare d) {c : Char} (hc : ¬(c.isDigit = true ∨ c = '-')) :
    c ∉ d :=
  fun hm => hc (h.plain c hm)

end Text

namespace Exposition

/-- The line that a sample is on. -/
def Sample.line (s : Sample) : List Char :=
  s.name ++ '\x7b' :: ("service=".toList ++ '"' :: (s.service ++ '"' :: '\x7d' :: ' ' :: s.value))

/-- Three lines: the first two declare the metric of the sample that is on the third. -/
structure Group where
  help : List Char
  kind : List Char
  sample : Sample

def Group.lines (g : Group) : List (List Char) :=
  [ "# HELP ".toList ++ (g.sample.name ++ ' ' :: g.help),
    "# TYPE ".toList ++ (g.sample.name ++ ' ' :: g.kind),
    g.sample.line ]

/-- What a text tells about a service. -/
inductive Quantity
  | counter (c : Counter)
  /-- The bytes in use. -/
  | used
  | ceiling
  deriving DecidableEq

namespace Quantity

/-- The name of the metric that tells a quantity. -/
def name : Quantity → String
  | counter .connectionsAdmitted => "servicenet_connections_admitted_total"
  | counter .connectionsRejected => "servicenet_connections_rejected_total"
  | counter .activeConnections => "servicenet_active_connections"
  | counter .packetsAdmitted => "servicenet_packets_admitted_total"
  | counter .packetsRejected => "servicenet_packets_rejected_total"
  | counter .budgetExhausted => "servicenet_budget_exhausted_total"
  | counter .integrationErrors => "servicenet_integration_errors_total"
  | counter .bytesReserved => "servicenet_bytes_reserved_total"
  | counter .bytesReleased => "servicenet_bytes_released_total"
  | used => "servicenet_budget_used_bytes"
  | ceiling => "servicenet_budget_ceiling_bytes"

/-- A gauge can go down, a counter only goes up. -/
def kind : Quantity → String
  | counter .activeConnections | used | ceiling => "gauge"
  | counter _ => "counter"

def value (c : Counters) (inUse limit : Nat) : Quantity → Nat
  | counter k => (c.get k).toNat
  | used => inUse
  | ceiling => limit

def all : List Quantity :=
  [ counter .connectionsAdmitted, counter .connectionsRejected, counter .activeConnections,
    counter .packetsAdmitted, counter .packetsRejected, counter .budgetExhausted,
    counter .integrationErrors, counter .bytesReserved, counter .bytesReleased, used, ceiling ]

theorem mem_all (q : Quantity) : q ∈ all := by
  cases q with
  | counter c => cases c <;> decide
  | used | ceiling => decide

theorem nodup_names : (all.map name).Nodup := by decide

theorem name_injective {q r : Quantity} (h : q.name = r.name) : q = r :=
  List.inj_on_of_nodup_map nodup_names q.mem_all r.mem_all h

end Quantity

/-- A line reads as a sample if the sample is on it, and as no other. -/
theorem Sample.read?_eq_some_iff {line : List Char} {s : Sample} :
    Sample.read? line = some s ↔ line = s.line ∧ '\x7b' ∉ s.name ∧ '"' ∉ s.service := by
  constructor
  · intro h
    simp only [Sample.read?, Option.bind_eq_bind, Option.bind_eq_some_iff, Prod.exists, guard] at h
    obtain ⟨name, rest, hname, label, rest', hlabel, _, hguard, service, tail, hservice, h⟩ := h
    obtain ⟨rfl, noBrace⟩ := Text.eq_append_of_cut? hname
    obtain ⟨rfl, -⟩ := Text.eq_append_of_cut? hlabel
    obtain ⟨rfl, noQuote⟩ := Text.eq_append_of_cut? hservice
    split at hguard
    · subst label
      split at h
      · cases h
        exact ⟨rfl, noBrace, noQuote⟩
      · cases h
    · cases hguard
  · rintro ⟨rfl, hname, hservice⟩
    have hlabel : '"' ∉ "service=".toList := by decide
    simp only [Sample.read?, Sample.line, Text.cut?_append hname, Text.cut?_append hlabel,
      Text.cut?_append hservice, Option.bind_eq_bind, Option.bind_some, guard, ↓reduceIte]
    rfl

variable {id : Identity} {m : Metric} {gs : List Group} {text : String}

/-- The group that a metric is written as. -/
def Metric.group (id : Identity) (m : Metric) : Group :=
  ⟨m.help.toList, m.kind.toList,
    ⟨m.name.toList, (toString id).toList, (toString m.value).toList⟩⟩

theorem Metric.lines_group (id : Identity) (m : Metric) :
    (m.group id).lines = (m.lines id).map String.toList := by
  simp [Group.lines, Metric.group, Metric.lines, Metric.sample, Sample.line]

/-- What a metric is called and what is said about it can be written on lines. -/
structure Metric.Plain (m : Metric) : Prop where
  name : ∀ c ∈ ['\n', '#', '\x7b'], c ∉ m.name.toList
  help : '\n' ∉ m.help.toList
  kind : '\n' ∉ m.kind.toList

theorem plain_metrics (c : Counters) (used ceiling : Nat) :
    ∀ m ∈ metrics c used ceiling, m.Plain := by
  intro m hm
  simp only [metrics, List.mem_cons, List.not_mem_nil, or_false] at hm
  rcases hm with rfl | rfl | rfl | rfl | rfl | rfl | rfl | rfl | rfl | rfl | rfl
  all_goals
    constructor
    all_goals
      rw [String.toList_ofList]
      simp

theorem Metric.Plain.oneLine (h : m.Plain) (id : Identity) :
    ∀ l ∈ (m.group id).lines, '\n' ∉ l := by
  have hname := h.name '\n' (by decide)
  have hid : '\n' ∉ (toString id).toList := (Text.bare_int _).not_mem (by decide)
  have hvalue : '\n' ∉ (toString m.value).toList := (Text.bare_nat _).not_mem (by decide)
  refine List.forall_mem_cons.mpr
    ⟨?help, List.forall_mem_cons.mpr ⟨?kind, List.forall_mem_singleton.mpr ?sample⟩⟩
  all_goals simp only [Metric.group, Sample.line, List.mem_append, List.mem_cons, not_or]
  case help => exact ⟨by decide, hname, by decide, h.help⟩
  case kind => exact ⟨by decide, hname, by decide, h.kind⟩
  case sample =>
    exact ⟨hname, by decide, by decide, by decide, hid, by decide, by decide, by decide, hvalue⟩

/-- Metrics that are written one after another are groups of lines. -/
theorem lines_groups {ms : List Metric} (plain : ∀ m ∈ ms, m.Plain) (id : Identity) :
    Text.lines (String.join ((ms.flatMap (·.lines id)).map (· ++ "\n"))).toList =
      (ms.map (·.group id)).flatMap Group.lines ++ [[]] := by
  have hchars : (String.join ((ms.flatMap (·.lines id)).map (· ++ "\n"))).toList =
      ((ms.map (·.group id)).flatMap Group.lines).flatMap (· ++ ['\n']) := by
    simp only [String.toList_join, List.flatMap_map, List.flatMap_assoc, Metric.lines_group,
      String.toList_append]
    rfl
  rw [hchars, Text.lines_ended]
  intro l hl
  obtain ⟨_, hg, hl⟩ := List.mem_flatMap.mp hl
  obtain ⟨m, hm, rfl⟩ := List.mem_map.mp hg
  exact (plain m hm).oneLine id l hl

/-- The line of a sample is no comment and reads as the sample. -/
structure Sample.Legible (s : Sample) : Prop where
  uncommented : s.line.head? ≠ some '#'
  read : Sample.read? s.line = some s

theorem Metric.Plain.legible (h : m.Plain) (id : Identity) : (m.group id).sample.Legible := by
  constructor
  · have hname := h.name '#' (by decide)
    show (m.name.toList ++ _).head? ≠ some '#'
    cases hn : m.name.toList with
    | nil => simp
    | cons c cs =>
      rw [hn, List.mem_cons, not_or] at hname
      simpa using Ne.symm hname.1
  · have hservice : '"' ∉ (toString id).toList := (Text.bare_int _).not_mem (by decide)
    exact Sample.read?_eq_some_iff.mpr ⟨rfl, h.name _ (by decide), hservice⟩

/-- The lines of groups that are no comments are those of their samples. -/
theorem samples?_of_lines (hl : Text.lines text.toList = gs.flatMap Group.lines ++ [[]])
    (legible : ∀ g ∈ gs, g.sample.Legible) : samples? text = some (gs.map Group.sample) := by
  rw [samples?, hl]
  -- From here on it is about lines only, and of each group the third one is left.
  clear hl
  induction gs with
  | nil => rfl
  | cons g gs ih =>
    obtain ⟨hg, hgs⟩ := List.forall_mem_cons.mp legible
    have hne : g.sample.line ≠ [] := by simp [Sample.line]
    have hlines : g.lines.filter (fun l => l ≠ [] ∧ l.head? ≠ some '#') = [g.sample.line] := by
      simp [Group.lines, hne, hg.uncommented]
    rw [List.flatMap_cons, List.append_assoc, List.filter_append, hlines, List.singleton_append,
      List.mapM_cons, hg.read, ih hgs]
    rfl

example : samples? "# HELP a b\n# TYPE a gauge\na\x7bservice=\"-7\"\x7d 12\n" =
    some [⟨['a'], ['-', '7'], ['1', '2']⟩] := by decide

/-- What the group of a quantity says: its name and kind, and in decimal whose it is and its value. -/
structure Group.Tells (g : Group) (q : Quantity) (id : Identity) (n : Nat) : Prop where
  name : g.sample.name = q.name.toList
  kind : g.kind = q.kind.toList
  service : g.sample.service = (toString id.val.toInt).toList
  value : g.sample.value = (toString n).toList
  readService : Text.readInt64 g.sample.service = .ok id.val
  readValue : Text.numberIn? 10 g.sample.value = some n

/-- A text that is made of the groups of all quantities, all of one service. -/
structure Written (text : String) (gs : List Group) (id : Identity) (value : Quantity → Nat) :
    Prop where
  /-- There is a line feed behind the last group, and nothing behind that. -/
  lines : Text.lines text.toList = gs.flatMap Group.lines ++ [[]]
  samples : samples? text = some (gs.map Group.sample)
  size : gs.length = 11
  once : ∀ q : Quantity, gs.countP (·.sample.name = q.name.toList) = 1
  told : ∀ g ∈ gs, ∃ q : Quantity, g.Tells q id (value q)

/-- Whose text it is, as its first sample has it. -/
def identity? (text : String) : Option Identity := do
  let s ← (← samples? text).head?
  (Text.readInt64 s.service).toOption.map Identity.mk

/-- What a text tells of a quantity. -/
def value? (text : String) (q : Quantity) : Option Nat := do
  let s ← (← samples? text).find? (·.name = q.name.toList)
  Text.numberIn? 10 s.value

/-- The metrics have the names, kinds and values of the quantities. -/
theorem map_metrics (c : Counters) (used ceiling : Nat) :
    (metrics c used ceiling).map (fun m => (m.name, m.kind, m.value)) =
      Quantity.all.map fun q => (q.name, q.kind, q.value c used ceiling) := rfl

theorem exists_quantity {c : Counters} {used ceiling : Nat} (hm : m ∈ metrics c used ceiling) :
    ∃ q : Quantity, m.name = q.name ∧ m.kind = q.kind ∧ m.value = q.value c used ceiling := by
  have h : (m.name, m.kind, m.value) ∈ (metrics c used ceiling).map fun m =>
      (m.name, m.kind, m.value) := List.mem_map_of_mem hm
  rw [map_metrics] at h
  obtain ⟨q, -, he⟩ := List.mem_map.mp h
  simp only [Prod.mk.injEq] at he
  exact ⟨q, he.1.symm, he.2.1.symm, he.2.2.symm⟩

theorem Metric.tells_group {q : Quantity} (name : m.name = q.name) (kind : m.kind = q.kind)
    (id : Identity) : (m.group id).Tells q id m.value where
  name := congrArg String.toList name
  kind := congrArg String.toList kind
  service := rfl
  value := rfl
  readService := Text.readInt64_decimal id.val
  readValue := Text.numberIn?_decimal m.value

theorem countP_name (c : Counters) (used ceiling : Nat) (q : Quantity) :
    (metrics c used ceiling).countP (·.name.toList = q.name.toList) = 1 := by
  have hnames : (metrics c used ceiling).map Metric.name = Quantity.all.map Quantity.name := rfl
  calc (metrics c used ceiling).countP (·.name.toList = q.name.toList)
      = ((metrics c used ceiling).map Metric.name).count q.name := by
        rw [List.count, List.countP_map]
        exact List.countP_congr fun m _ => by simp [String.toList_inj]
    _ = 1 := by
        rw [hnames]
        exact List.count_eq_one_of_mem Quantity.nodup_names (List.mem_map_of_mem q.mem_all)

theorem written_render (c : Counters) (id : Identity) (used ceiling : Nat) :
    Written (render c id used ceiling) ((metrics c used ceiling).map (·.group id)) id
      (Quantity.value c used ceiling) := by
  have hl := lines_groups (plain_metrics c used ceiling) id
  refine ⟨hl, samples?_of_lines hl ?_, ?_, ?_, ?_⟩
  · intro g hg
    obtain ⟨m, hm, rfl⟩ := List.mem_map.mp hg
    exact (plain_metrics c used ceiling m hm).legible id
  · rw [List.length_map, length_metrics]
  · intro q
    rw [List.countP_map]
    exact countP_name c used ceiling q
  · intro g hg
    obtain ⟨m, hm, rfl⟩ := List.mem_map.mp hg
    obtain ⟨q, hname, hkind, hvalue⟩ := exists_quantity hm
    exact ⟨q, hvalue ▸ m.tells_group hname hkind id⟩

namespace Written

variable {value : Quantity → Nat}

theorem identity?_eq (h : Written text gs id value) : identity? text = some id := by
  cases gs with
  | nil => cases h.size
  | cons g gs =>
    obtain ⟨q, hq⟩ := h.told g List.mem_cons_self
    simp only [identity?, h.samples, Option.bind_eq_bind, Option.bind_some, List.map_cons,
      List.head?_cons, hq.readService]
    rfl

theorem value?_eq (h : Written text gs id value) (q : Quantity) :
    value? text q = some (value q) := by
  simp only [value?, h.samples, Option.bind_eq_bind, Option.bind_some]
  cases hf : (gs.map Group.sample).find? (·.name = q.name.toList) with
  | none =>
    obtain ⟨g, hg, hname⟩ := List.countP_pos_iff.mp (Nat.lt_of_lt_of_eq Nat.one_pos (h.once q).symm)
    exact absurd hname (List.find?_eq_none.mp hf _ (List.mem_map_of_mem hg))
  | some s =>
    obtain ⟨g, hg, rfl⟩ := List.mem_map.mp (List.mem_of_find?_eq_some hf)
    obtain ⟨r, hr⟩ := h.told g hg
    have hname : g.sample.name = q.name.toList := by simpa using List.find?_some hf
    obtain rfl : r = q := Quantity.name_injective (String.toList_inj.mp (hr.name.symm.trans hname))
    exact hr.readValue

end Written

/-- The text of a service can be read back. It is made of a group of three lines for each of the nine
counters, the bytes in use and the ceiling, and tells their values and whose they are; so the texts
of two services are the same only if all of these are. -/
theorem renderings_read_back (c c' : Counters) (id id' : Identity)
    (used used' ceiling ceiling' : Nat) :
    (∃ gs, Written (render c id used ceiling) gs id (Quantity.value c used ceiling)) ∧
      identity? (render c id used ceiling) = some id ∧
      (∀ q : Quantity, value? (render c id used ceiling) q = some (q.value c used ceiling)) ∧
      (render c id used ceiling = render c' id' used' ceiling' ↔
        c = c' ∧ id = id' ∧ used = used' ∧ ceiling = ceiling') := by
  have hw := written_render c id used ceiling
  have hw' := written_render c' id' used' ceiling'
  refine ⟨⟨_, hw⟩, hw.identity?_eq, hw.value?_eq, fun h => ?_, ?_⟩
  · rw [h] at hw
    have hid : id = id' := Option.some.inj (hw.identity?_eq.symm.trans hw'.identity?_eq)
    have hvalue : ∀ q : Quantity, q.value c used ceiling = q.value c' used' ceiling' := fun q =>
      Option.some.inj ((hw.value?_eq q).symm.trans (hw'.value?_eq q))
    have hc : c = c' := Counters.ext_get fun k => UInt64.toNat_inj.mp (hvalue (.counter k))
    exact ⟨hc, hid, hvalue .used, hvalue .ceiling⟩
  · rintro ⟨rfl, rfl, rfl, rfl⟩
    rfl

end Exposition

end PacketBudget
