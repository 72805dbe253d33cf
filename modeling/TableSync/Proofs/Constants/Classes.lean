import Mathlib.Data.List.Nodup
import TableSync.Category.Constants
import TableSync.Proofs.Data.Collect
import TableSync.Proofs.Emit.Splice

/-!
# Where the definitions of a header go

The definitions of a header are sorted by the starts of their names.  The tables of stems and of
single values are searched in their order, but no group takes what another one takes, and no group
what a single value takes, so the order decides no more than which of two stems is the longer one.
That is why a group can be described without the tables: it takes the names that start with its stem
and with no longer one.

* `Group.Takes` says which names belong to a group, and `Single.starts` which names count for a
  single value.  `takes_of_find?`, `Single.starts_eq` and `Single.not_starts` rest on the tables
  alone, and are all that is used of them further on.
* `addDefine_cases` says all that one definition can do.
* `Classifies` relates a document to the definitions that have been met, and `Classifies.add` is one
  more of them.  A whole header is `Classifies.foldl`, by induction on the definitions from the
  back, as the last one decides.
* **`parse_classifies`** is about a whole header: each group has the definitions that belong to it,
  under their names in the order in which these are met first, with what is defined last.
* A definition counts for a single value if its name goes on after that of the value, too
  (`parse_longerName`), so the theorem says of a single value what the last such definition is, and
  adds what follows if that one has the very name.
-/

set_option autoImplicit false

namespace TableSync

/-- Of two starts of a text the shorter one is a start of the longer one. -/
theorem startsWith_of_startsWith {p q s : Text} (hp : startsWith p s = true)
    (hq : startsWith q s = true) (hle : p.length ≤ q.length) : startsWith p q = true := by
  have hp' := startsWith_iff_prefix.1 hp
  have hq' := startsWith_iff_prefix.1 hq
  exact startsWith_iff_prefix.2 (List.prefix_of_prefix_length_le hp' hq' hle)

namespace Constants

/-! ## Names

All that the two tables are asked for is here.  They are closed terms, so what holds of every pair
of their entries is computed; the lemmas behind turn it into statements on one name. -/

/-- Whether a name starts with the stem of a group. -/
def Group.starts (g : Group) (name : String) : Bool := startsWith g.stem.toList name.toList

/-- Whether a name is that of a single value, or goes on after it. -/
def Single.starts (s : Single) (name : String) : Bool := startsWith s.name.toList name.toList

/-- A name belongs to a group if it starts with the stem of the group and with no longer stem.  One
name is left out. -/
def Group.Takes (g : Group) (name : String) : Prop :=
  name ≠ excluded ∧ g.starts name = true ∧
    ∀ h ∈ groups, h.starts name = true → h.stem.length ≤ g.stem.length

instance (g : Group) (name : String) : Decidable (g.Takes name) :=
  inferInstanceAs (Decidable (_ ∧ _ ∧ _))

variable {g h : Group} {s t : Single} {name : String}

/-- No stem is the start of one behind it. -/
theorem pairwise_groups :
    groups.Pairwise fun g h => ¬ startsWith g.stem.toList h.stem.toList = true := by decide

theorem Group.Takes.eq (hg : g ∈ groups) (hh : h ∈ groups) (htake : g.Takes name)
    (htake' : h.Takes name) : g = h := by
  have hnodup : (groups.map Group.stem).Nodup := by decide
  have hlength : g.stem.toList.length = h.stem.toList.length := by
    rw [String.length_toList, String.length_toList]
    exact Nat.le_antisymm (htake'.2.2 g hg htake.2.1) (htake.2.2 h hh htake'.2.1)
  have hstart :=
    startsWith_iff_prefix.1 (startsWith_of_startsWith htake.2.1 htake'.2.1 (Nat.le_of_eq hlength))
  have hstem : g.stem.toList = h.stem.toList := hstart.eq_of_length hlength
  exact List.inj_on_of_nodup_map hnodup hg hh (String.toList_inj.1 hstem)

/-- The first group whose stem a name starts with is that with the longest one. -/
theorem takes_of_find? (hname : name ≠ excluded) (hfind : groups.find? (·.starts name) = some g) :
    g ∈ groups ∧ g.Takes name := by
  obtain ⟨hstarts, before, after, hsplit, hbefore⟩ := List.find?_eq_some_iff_append.1 hfind
  have hpairwise := pairwise_groups
  rw [hsplit, List.pairwise_append, List.pairwise_cons] at hpairwise
  refine ⟨List.mem_of_find?_eq_some hfind, hname, hstarts, fun h hh hstarts' => ?_⟩
  rw [hsplit, List.mem_append, List.mem_cons] at hh
  rcases hh with hh | rfl | hh
  · exact absurd hstarts' (by simpa using hbefore h hh)
  · exact Nat.le_refl _
  · by_contra hlong
    -- a longer stem would go on after that of the group, and stand before it
    rw [Nat.not_le, ← String.length_toList, ← String.length_toList] at hlong
    exact hpairwise.2.1.1 h hh (startsWith_of_startsWith hstarts hstarts' (Nat.le_of_lt hlong))

/-- No name starts with those of two single values. -/
theorem Single.starts_eq (hs : s ∈ singles) (ht : t ∈ singles) (hstarts : s.starts name = true)
    (hstarts' : t.starts name = true) : s = t := by
  have happart : ∀ s ∈ singles, ∀ t ∈ singles, startsWith s.name.toList t.name.toList = true →
      s.name = t.name := by decide
  have hnodup : (singles.map Single.name).Nodup := by decide
  refine List.inj_on_of_nodup_map hnodup hs ht ?_
  rcases Nat.le_total s.name.toList.length t.name.toList.length with hle | hle
  · exact happart s hs t ht (startsWith_of_startsWith hstarts hstarts' hle)
  · exact (happart t ht s hs (startsWith_of_startsWith hstarts' hstarts hle)).symm

/-- No name that counts for a single value starts with the stem of a group. -/
theorem Single.not_starts (hs : s ∈ singles) (hg : g ∈ groups) (hstarts : s.starts name = true) :
    ¬ g.starts name = true := by
  have happart : ∀ s ∈ singles, ∀ g ∈ groups, ¬ startsWith s.name.toList g.stem.toList = true ∧
      ¬ startsWith g.stem.toList s.name.toList = true := by decide
  intro hstarts'
  rcases Nat.le_total s.name.toList.length g.stem.toList.length with hle | hle
  · exact (happart s hs g hg).1 (startsWith_of_startsWith hstarts hstarts' hle)
  · exact (happart s hs g hg).2 (startsWith_of_startsWith hstarts' hstarts hle)

/-! ## One definition -/

/-- **All that a definition can do**: it gives a single value its value, it goes to the group that
takes its name, or it changes nothing. -/
theorem addDefine_cases (done : Extraction) (d : Define) :
    (∃ s ∈ singles, s.starts d.name = true ∧
      (addDefine done d).records = done.records.insert s.key (.scalar d.value)) ∨
    (∃ g ∈ groups, g.Takes d.name ∧
      (addDefine done d).records = done.records.insert g.key
        (.record (((done.records.record? g.key).getD .empty).insert d.name (entry g d)))) ∨
    ((∀ s ∈ singles, s.starts d.name = false) ∧ (∀ g ∈ groups, ¬ g.Takes d.name) ∧
      (addDefine done d).records = done.records) := by
  rw [addDefine]
  by_cases hname : d.name = excluded
  · refine Or.inr (Or.inr ⟨?_, fun g _ htake => htake.1 hname, by rw [if_pos hname]⟩)
    rw [hname]
    decide
  rw [if_neg hname]
  cases hsingle : singles.find? fun s => startsWith s.name.toList d.name.toList with
  | some s =>
    have hstarts := List.find?_some hsingle
    exact Or.inl ⟨s, List.mem_of_find?_eq_some hsingle, hstarts, rfl⟩
  | none =>
    refine Or.inr ?_
    cases hgroup : groups.find? fun g => startsWith g.stem.toList d.name.toList with
    | some g =>
      obtain ⟨hmem, htakes⟩ := takes_of_find? hname hgroup
      exact Or.inl ⟨g, hmem, htakes, rfl⟩
    | none =>
      refine Or.inr ⟨fun s hs => ?_, fun g hg htake => ?_, rfl⟩
      · exact Bool.eq_false_iff.2 (List.find?_eq_none.1 hsingle s hs)
      · exact List.find?_eq_none.1 hgroup g hg htake.2.1

/-! ## Several definitions

A document grows by definitions at the end, so the last one with a property is said by `lastOf`,
which one more definition either replaces or leaves as it is. -/

/-- The last of some definitions whose name is as it is asked for. -/
def lastOf (p : String → Bool) (ds : List Define) : Option Define :=
  (ds.filter fun d => p d.name).getLast?

theorem lastOf_concat (p : String → Bool) (ds : List Define) (d : Define) :
    lastOf p (ds ++ [d]) = if p d.name = true then some d else lastOf p ds :=
  getLast?_filter_concat (fun d : Define => p d.name) ds d

/-- If the last definition of some is one of fewer, too, it is the last one of these. -/
theorem lastOf_of_imp {p q : String → Bool} {ds : List Define}
    (hqp : ∀ name, q name = true → p name = true)
    (hlast : ∀ d, lastOf p ds = some d → q d.name = true) : lastOf q ds = lastOf p ds := by
  have hfind : ∀ r : String → Bool, lastOf r ds = ds.reverse.find? fun d => r d.name :=
    fun r => List.getLast?_filter
  rw [hfind p] at hlast ⊢
  rw [hfind q]
  cases hp : ds.reverse.find? fun d => p d.name with
  | none =>
    refine List.find?_eq_none.2 fun d hd hq => ?_
    exact List.find?_eq_none.1 hp d hd (hqp d.name hq)
  | some d =>
    obtain ⟨-, before, after, hsplit, hbefore⟩ := List.find?_eq_some_iff_append.1 hp
    refine List.find?_eq_some_iff_append.2 ⟨hlast d hp, before, after, hsplit, fun e he => ?_⟩
    have hpe := hbefore e he
    rw [Bool.not_eq_true'] at hpe ⊢
    exact Bool.eq_false_iff.2 fun hq => Bool.eq_false_iff.1 hpe (hqp e.name hq)

/-- A single value that is defined, or is not. -/
def Single.value (s : Single) : Option Define → Value
  | some d => .scalar d.value
  | none => .int s.default

/-- The constants of a group. -/
def Group.record (g : Group) (ds : List Define) : Record :=
  .ofFields ((ds.filter fun d => g.Takes d.name).map fun d => (d.name, entry g d))

theorem Group.record_concat (g : Group) (ds : List Define) (d : Define) :
    g.record (ds ++ [d]) =
      if g.Takes d.name then (g.record ds).insert d.name (entry g d) else g.record ds := by
  rw [record, List.filter_append]
  split
  · next htake =>
    rw [List.filter_cons_of_pos (by simpa using htake), List.filter_nil, List.map_append,
      List.map_cons, List.map_nil, Record.ofFields_concat, record]
  · next htake =>
    rw [List.filter_cons_of_neg (by simpa using htake), List.filter_nil, List.append_nil, record]

/-- A document after some definitions. -/
structure Classifies (ds : List Define) (r : Record) : Prop where
  /-- The keys are there from the start, those of the groups before those of the single values. -/
  keys : r.keys = groups.map Group.key ++ singles.map Single.key
  /-- A single value is that of the last definition that counts for it, or its default. -/
  single : ∀ s ∈ singles, r.get? s.key = some (s.value (lastOf s.starts ds))
  /-- A group holds the definitions that belong to it, with what is defined last. -/
  group : ∀ g ∈ groups, r.get? g.key = some (.record (g.record ds))

theorem nodup_keys : (groups.map Group.key ++ singles.map Single.key).Nodup := by decide

theorem Single.key_ne (hs : s ∈ singles) (ht : t ∈ singles) (hne : s ≠ t) : s.key ≠ t.key :=
  fun hkey => hne (List.inj_on_of_nodup_map (List.nodup_append.1 nodup_keys).2.1 hs ht hkey)

theorem Group.key_ne (hg : g ∈ groups) (hh : h ∈ groups) (hne : g ≠ h) : g.key ≠ h.key :=
  fun hkey => hne (List.inj_on_of_nodup_map (List.nodup_append.1 nodup_keys).1 hg hh hkey)

theorem key_ne_key (hg : g ∈ groups) (hs : s ∈ singles) : g.key ≠ s.key :=
  (List.nodup_append.1 nodup_keys).2.2 g.key (List.mem_map_of_mem hg) s.key (List.mem_map_of_mem hs)

namespace Classifies

variable {ds : List Define} {done : Extraction}

theorem initial : Classifies [] initial where
  keys := rfl
  single := by decide
  group := by decide

/-- A document of which a field is changed has the keys that it had. -/
theorem keys_insert {r : Record} {key : String} (hr : Classifies ds r) (hkey : key ∈ r.keys)
    (v : Value) : (r.insert key v).keys = groups.map Group.key ++ singles.map Single.key := by
  rw [Record.keys_insert, Record.withKey, if_pos hkey, hr.keys]

/-- One more definition. -/
theorem add (hdone : Classifies ds done.records) (d : Define) :
    Classifies (ds ++ [d]) (addDefine done d).records := by
  rcases addDefine_cases done d with
    ⟨s, hs, hstarts, heq⟩ | ⟨g, hg, htake, heq⟩ | ⟨hnone, hnone', heq⟩
  · have hkey : s.key ∈ done.records.keys := by
      rw [hdone.keys]
      exact List.mem_append_right _ (List.mem_map_of_mem hs)
    rw [heq]
    refine ⟨hdone.keys_insert hkey _, fun t ht => ?_, fun g hg => ?_⟩
    · rw [lastOf_concat]
      by_cases hst : s = t
      · rw [← hst, Record.get?_insert_self, if_pos hstarts, Single.value]
      -- No two single names share a prefix, so the define goes to one of them only.
      · have hother : ¬ t.starts d.name = true := fun hstarts' =>
          hst (Single.starts_eq hs ht hstarts hstarts')
        rw [Record.get?_insert_of_ne (Single.key_ne hs ht hst), if_neg hother, hdone.single t ht]
    · have hother : ¬ g.Takes d.name := fun htake => Single.not_starts hs hg hstarts htake.2.1
      rw [Group.record_concat, if_neg hother, Record.get?_insert_of_ne (key_ne_key hg hs).symm,
        hdone.group g hg]
  · have hkey : g.key ∈ done.records.keys := by
      rw [hdone.keys]
      exact List.mem_append_left _ (List.mem_map_of_mem hg)
    have hinner : (done.records.record? g.key).getD .empty = g.record ds := by
      rw [Record.record?, hdone.group g hg]
      rfl
    rw [heq, hinner]
    refine ⟨hdone.keys_insert hkey _, fun s hs => ?_, fun h hh => ?_⟩
    · have hother : ¬ s.starts d.name = true := fun hstarts =>
        Single.not_starts hs hg hstarts htake.2.1
      rw [lastOf_concat, if_neg hother, Record.get?_insert_of_ne (key_ne_key hg hs),
        hdone.single s hs]
    · rw [Group.record_concat]
      by_cases hgh : g = h
      · rw [← hgh, Record.get?_insert_self, if_pos htake]
      · have hother : ¬ h.Takes d.name := fun htake' => hgh (htake.eq hg hh htake')
        rw [Record.get?_insert_of_ne (Group.key_ne hg hh hgh), if_neg hother, hdone.group h hh]
  · rw [heq]
    refine ⟨hdone.keys, fun s hs => ?_, fun g hg => ?_⟩
    · rw [lastOf_concat, if_neg (Bool.eq_false_iff.1 (hnone s hs)), hdone.single s hs]
    · rw [Group.record_concat, if_neg (hnone' g hg), hdone.group g hg]

/-- Any number of definitions. -/
theorem foldl (ds : List Define) :
    Classifies ds (ds.foldl addDefine ⟨Constants.initial, {}⟩).records := by
  induction ds using List.reverseRecOn with
  | nil => exact Classifies.initial
  | append_singleton ds d ih =>
    rw [List.foldl_append]
    exact ih.add d

end Classifies

/-! ## A whole header -/

theorem Group.keys_record (g : Group) (ds : List Define) :
    (g.record ds).keys = ((ds.map Define.name).filter fun name => g.Takes name).eraseDups := by
  rw [record, Record.keys_ofFields, List.map_map, List.filter_map]
  rfl

theorem Group.get?_record (htake : g.Takes name) (ds : List Define) :
    (g.record ds).get? name = (lastOf (· = name) ds).map (entry g) := by
  have hfilter : (ds.filter fun d => g.Takes d.name).filter (fun d => d.name = name) =
      ds.filter fun d => d.name = name := by
    rw [List.filter_filter]
    refine List.filter_congr fun d _ => ?_
    by_cases hname : d.name = name
    · simp [hname, htake]
    · simp [hname]
  rw [record, Record.get?_ofFields, hfilter, lastOf]

theorem Group.mem_keys_record {ds : List Define} :
    name ∈ (g.record ds).keys ↔ g.Takes name ∧ ∃ d ∈ ds, d.name = name := by
  rw [keys_record, List.mem_eraseDups, List.mem_filter, List.mem_map, decide_eq_true_eq, and_comm]

theorem isSome_lastOf {d : Define} {ds : List Define} (h : d ∈ ds) :
    ∃ last, lastOf (· = d.name) ds = some last := by
  refine Option.ne_none_iff_exists'.1 fun hnone => ?_
  have hmem : d ∈ ds.filter fun e => e.name = d.name := List.mem_filter.2 ⟨h, by simp⟩
  rw [List.getLast?_eq_none_iff.1 hnone] at hmem
  exact List.not_mem_nil hmem

/-- The definitions of a header, in order. -/
def defines (text : Text) : List Define := (lines text).filterMap parseDefine?

/-- **The definitions of a header are classified by the starts of their names.**  A single value has
the value of the last definition whose name is that of the value or goes on after it; if this
definition has the very name, it is the last one that has.  A group has the definitions that belong
to it, where their names are met first, with what is defined last.  Every definition whose name
starts with a stem, but the one that is left out, is in exactly one group. -/
theorem parse_classifies (text : Text) :
    (parse text).records.keys = groups.map Group.key ++ singles.map Single.key ∧
    (∀ s ∈ singles,
      (parse text).records.get? s.key = some (s.value (lastOf s.starts (defines text))) ∧
      ((∀ d, lastOf s.starts (defines text) = some d → d.name = s.name) →
        (parse text).records.get? s.key = some (s.value (lastOf (· = s.name) (defines text))))) ∧
    (∀ g ∈ groups, ∃ inner, (parse text).records.get? g.key = some (.record inner) ∧
      inner.keys = (((defines text).map Define.name).filter fun name => g.Takes name).eraseDups ∧
      ∀ name ∈ inner.keys, ∃ d, lastOf (· = name) (defines text) = some d ∧
        inner.get? name = some (entry g d)) ∧
    ∀ d ∈ defines text, d.name ≠ excluded → (∃ h ∈ groups, h.starts d.name = true) →
      ∃! g, g ∈ groups ∧ ∃ inner, (parse text).records.get? g.key = some (.record inner) ∧
        d.name ∈ inner.keys := by
  have hparse : Classifies (defines text) (parse text).records := Classifies.foldl (defines text)
  refine ⟨hparse.keys, fun s hs => ⟨hparse.single s hs, fun hlast => ?_⟩, fun g hg => ?_,
    fun d hd hname hstem => ?_⟩
  · have hself : ∀ name, decide (name = s.name) = true → s.starts name = true := by
      intro name hname
      rw [of_decide_eq_true hname]
      exact startsWith_iff_prefix.2 List.prefix_rfl
    rw [hparse.single s hs, lastOf_of_imp hself fun d hd => decide_eq_true (hlast d hd)]
  · refine ⟨g.record (defines text), hparse.group g hg, g.keys_record _, fun name hmem => ?_⟩
    obtain ⟨htake, d, hd, rfl⟩ := Group.mem_keys_record.1 hmem
    obtain ⟨last, hlast⟩ := isSome_lastOf hd
    exact ⟨last, hlast, by rw [Group.get?_record htake, hlast, Option.map_some]⟩
  · obtain ⟨h, hh, hstarts⟩ := hstem
    -- A stem puts the define into the first group that takes it, and the groups exclude each other.
    have hsome : (groups.find? fun g => g.starts d.name).isSome = true :=
      List.find?_isSome.2 ⟨h, hh, hstarts⟩
    obtain ⟨g, hfind⟩ := Option.isSome_iff_exists.1 hsome
    obtain ⟨hg, htake⟩ := takes_of_find? hname hfind
    refine ⟨g, ⟨hg, g.record _, hparse.group g hg, Group.mem_keys_record.2 ⟨htake, d, hd, rfl⟩⟩, ?_⟩
    rintro g' ⟨hg', inner, hinner, hmem⟩
    rw [hparse.group g' hg', Option.some.injEq, Value.record.injEq] at hinner
    rw [← hinner] at hmem
    exact (Group.mem_keys_record.1 hmem).1.eq hg' hg htake

/-- A header with a name that is left out, one that is defined twice and one that starts with two
stems. -/
def sampleHeader : Text :=
  ("#define TYPE_NONE 255\n#define TYPE_FIRE 9\n#define EVO_MODE_X 0\n" ++
    "#define TYPE_FIRE 10 // hot\n#define SHINY_ODDS 16\n").toList

theorem parse_classifies_sampleHeader :
    (⟨"SHINY_ODDS", "shiny_odds", 8⟩ : Single) ∈ singles ∧
      (∀ d, lastOf (Single.starts ⟨"SHINY_ODDS", "shiny_odds", 8⟩) (defines sampleHeader) = some d →
        d.name = "SHINY_ODDS") ∧
      (parse sampleHeader).records.get? "shiny_odds" =
        some (Single.value ⟨"SHINY_ODDS", "shiny_odds", 8⟩
          (lastOf (· = "SHINY_ODDS") (defines sampleHeader))) ∧
      (parse sampleHeader).records.get? "shiny_odds" = some (.int 16) := by
  have hmem : (⟨"SHINY_ODDS", "shiny_odds", 8⟩ : Single) ∈ singles := List.mem_cons_self
  have hlast : (lastOf (Single.starts ⟨"SHINY_ODDS", "shiny_odds", 8⟩) (defines sampleHeader)).map
      Define.name = some "SHINY_ODDS" := by decide +kernel
  have hname : ∀ d, lastOf (Single.starts ⟨"SHINY_ODDS", "shiny_odds", 8⟩) (defines sampleHeader) =
      some d → d.name = "SHINY_ODDS" :=
    fun d hd => Option.some.inj ((congrArg (Option.map Define.name) hd).symm.trans hlast)
  exact ⟨hmem, hname, ((parse_classifies sampleHeader).2.1 _ hmem).2 hname, by decide +kernel⟩

/-- **A longer name counts for a single value**: it is defined although nothing has its name. -/
theorem parse_longerName :
    let text := "#define SHINY_ODDS_CHARM 2\n".toList
    lastOf (· = "SHINY_ODDS") (defines text) = none ∧
      (parse text).records.get? "shiny_odds" = some (.int 2) :=
  ⟨rfl, by decide +kernel⟩

end Constants

end TableSync
