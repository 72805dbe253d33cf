import TableSync.Proofs.Expr.Resolution
import TableSync.Proofs.Field.Lists
import TableSync.Proofs.Field.Parsers
import TableSync.Proofs.Field.Written
import TableSync.Proofs.Scan.Block
import TableSync.Proofs.Species.DexText

/-!
# Fields of species, written and read

Each field of a species has its kind of values.  What is written for a value of that kind is stored
and read as the value with its conditionals decided.

* `Legible` says which values a field has.  It has one constructor for each kind: the fields without
  a parser, the lists in braces, the localized strings, the description, the numbers with names of
  their own, the flags, the sizes of pictures and the evolutions.
* `RoundTrips` is what is shown of each of them: that there is a written form at all, that the lines
  with it are gone over by the scanner and store a text, and that this text is parsed as the value
  with its conditionals decided.
* `roundTrips_plain` to `roundTrips_evolutions` are the kinds, one by one, and `Legible.roundTrips`
  is by cases on the kind.

For each kind the same has to be known: which characters its written form holds, so that it can
stand on one line (`IsFieldText`) and opens no text of a variable; that it is not taken for an
integer and not folded, before its parser comes to see it; and that its parser reads it.  The lemmas
with names `notMem_…` and `unread_…` are about the first two.

A description is the only field on several lines.  It is stored without its quotes, and therefore
has more conditions than the other texts (`IsDescription`).
-/

set_option autoImplicit false

namespace TableSync.Species

/-! ## The values of a field -/

/-- A text that can stand between quotes on a line of its own: it holds no conditional, and opens no
text of a variable. -/
structure IsLabel (t : Text) : Prop where
  /-- The string is not taken apart after it is read. -/
  conditional : Conditional.find? t = none
  /-- The line with the string is not taken for the declaration of a text. -/
  opening : search? dexTextAt? t = none

/-- A text whose escaped form is stored without its quotes: it is trimmed, it does not look like an
integer, a conditional or a string literal. -/
structure IsDescription (t : Text) : Prop where
  /-- Trimming the stored text takes nothing off. -/
  trimmed : IsTrimmed (escape t)
  /-- The stored text is not read as an integer. -/
  integer : readInt? (escape t) = none
  /-- The stored text is not folded to an integer. -/
  folded : fold? (escape t) = none
  /-- The stored text has no quotes of its own that would be taken off. -/
  literal : unwrapLiteral (escape t) = escape t
  /-- The string is not taken apart after it is read. -/
  conditional : Conditional.find? t = none

/-- An evolution with a parameter and a target, or with any number of arguments but two. -/
inductive IsEvolution : Record → Prop
  | target {method target : String} {param : Value} : IsWord method.toList →
      method.toList ≠ evolutionsEnd → param.IsScalar → IsWord target.toList →
      IsEvolution ⟨[("method", .str method), ("param", param), ("targetSpecies", .str target)]⟩
  | args {method : String} {args : List Value} : IsWord method.toList →
      method.toList ≠ evolutionsEnd → (∀ v ∈ args, v.IsScalar) → args.length ≠ 2 →
      IsEvolution ⟨[("method", .str method), ("args", .list args)]⟩

/-- The keys of lists in braces. -/
def listKeys : List String := ["types", "eggGroups", "abilities"]

/-- The keys of localized strings. -/
def labelKeys : List String := ["speciesName", "categoryName"]

/-- The keys of numbers with names of their own in the source. -/
def numberKeys : List String := ["genderRatio", "friendship"]

/-- The values that a field can have so that what is written for it reads as the same value. -/
inductive Legible (constants : ConstantTable) : String → Value → Prop
  | plain {key : String} {v : Value} : fieldTable.lookup key = none → v.IsPlain constants →
      Legible constants key v
  | list {key : String} {items : List Value} : key ∈ listKeys →
      (∀ v ∈ items, v.IsPlain constants) → Legible constants key (.list items)
  | label {key s : String} : key ∈ labelKeys → IsLabel s.toList → Legible constants key (.str s)
  | description {s : String} : IsDescription s.toList → Legible constants "description" (.str s)
  | number {key : String} {n : Int} : key ∈ numberKeys → IsInt64 n → Legible constants key (.int n)
  | flags {names : List String} : (∀ name ∈ names, IsName name.toList) →
      Legible constants "flags" (.list (names.map .str))
  | size {key : String} {width height : Value} : key ∈ sizeKeys → width.IsScalar →
      height.IsScalar → Legible constants key (.list [width, height])
  | evolutions {es : List Record} : (∀ e ∈ es, IsEvolution e) →
      Legible constants "evolutions" (.list (es.map .record))

variable {constants : ConstantTable} {key : String} {v : Value}

/-! ## Lists of values

Lists are written and read item by item; that the items do not run into each other is left to the
commas between them. -/

theorem decomposeItems_eq_map (items : List Value) :
    decomposeItems items = items.map Value.decompose := by
  induction items with
  | nil => rfl
  | cons v vs ih => rw [decomposeItems, ih, List.map_cons]

/-- What is written for items. -/
def plainTexts (constants : ConstantTable) (items : List Value) : List Text :=
  items.map fun v => (v.resolve constants).plainText

/-- Plain items are written one by one. -/
theorem items_plain {items : List Value} (h : ∀ v ∈ items, v.IsPlain constants)
    (entity field : String) :
    Emit.items entity field constants items = .ok (plainTexts constants items) := by
  induction items with
  | nil => rfl
  | cons v vs ih =>
    rw [Emit.items, Emit.value_plain (h v List.mem_cons_self),
      ih fun w hw => h w (List.mem_cons_of_mem v hw)]
    rfl

/-- Standing values are read one by one. -/
theorem decomposeItems_scalar {items : List Value} (h : ∀ v ∈ items, v.IsPlain constants) :
    decomposeItems ((plainTexts constants items).map Value.scalar) =
      resolveItems constants items := by
  rw [plainTexts, decomposeItems_eq_map, resolveItems_eq_map, List.map_map, List.map_map]
  exact List.map_congr_left fun v hv => (h v hv).resolve.decompose_scalar

/-! ## Each kind of field

In the order of the parsers.  What the lemmas of a kind share stands before the first of them. -/

/-- What is written for a value is stored and read as the value with its conditionals decided. -/
def RoundTrips (constants : ConstantTable) (id key : String) (v : Value) : Prop :=
  ∃ f : WrittenField, f.key = key ∧ renderField id key constants v = .ok f.written ∧
    f.Stores scanner ∧ (fieldTable.parse key f.raw).value = v.resolve constants

variable {id : String} {w : Text}

/-- A field on one line is stored as it is written. -/
theorem roundTrips_of_line (hkey : IsKey key.toList) (hw : IsFieldText w)
    (hraw : search? dexTextAt? (Emit.fieldLine key w) = none)
    (hrender : renderField id key constants v = .ok w)
    (hparse : (fieldTable.parse key w).value = v.resolve constants) :
    RoundTrips constants id key v :=
  ⟨⟨key, w, w⟩, rfl, hrender,
    fun _ _ hstate => hw.reads hkey hstate hraw (headerAt?_fieldLine speciesStem), hparse⟩

/-- A field on one line opens no text of a variable if it holds no bracket. -/
theorem search?_fieldLine (hkey : IsKey key.toList) (hw : '[' ∉ w) :
    search? dexTextAt? (Emit.fieldLine key w) = none :=
  search?_dexTextAt?_of_notMem (x := '[') (by decide)
    (notMem_fieldLine hkey (by decide) (by decide) hw)

theorem ne_of_lookup_eq_none (h : fieldTable.lookup key = none) :
    ∀ k ∈ fieldTable.map Prod.fst, key ≠ k := by
  rintro k hk rfl
  obtain ⟨entry, hentry, rfl⟩ := List.mem_map.1 hk
  have hne := List.lookup_eq_none_iff.1 h entry hentry
  simp at hne

/-- A field without a parser is written as a plain value. -/
theorem renderField_of_lookup_eq_none (h : fieldTable.lookup key = none) :
    renderField id key constants v = Emit.value id key constants v := by
  have hne := ne_of_lookup_eq_none h
  have hsize : ¬ sizeKeys.contains key = true := by
    intro hmem
    have hmem : key ∈ sizeKeys := by simpa using hmem
    exact hne key (by
      revert hmem
      simp only [sizeKeys, fieldTable, List.map_cons, List.map_nil, List.mem_cons, List.not_mem_nil,
        or_false]
      grind) rfl
  have hother : renderField.other id key constants v = Emit.value id key constants v := by
    rw [renderField.other, if_neg hsize, if_neg (hne _ (by decide)), if_neg (hne _ (by decide))]
  rw [renderField, hother]
  split
  · rw [if_neg (not_or.2 ⟨hne _ (by decide), hne _ (by decide)⟩), if_neg (hne _ (by decide))]
  · rfl

/-- What is written for a standing value can stand on one line. -/
theorem isFieldText_plainText (h : v.IsStanding constants) : IsFieldText v.plainText := by
  refine isFieldText_of_notMem h.isTrimmed h.ne_nil (h.notMem (by decide) (by decide))
    (h.notMem (by decide) (by decide)) (h.notMem (by decide) (by decide)) ?_
  rcases h.parenthesis with hhead | hmem
  · refine dropStart?_openers_of_head? (c := '(') ?_ (by decide) (by decide)
    rw [List.head?_append, hhead]
    rfl
  · exact dropStart?_openers_of_notMem (List.not_mem_append hmem (by decide))

/-- **Fields without a parser.** -/
theorem roundTrips_plain (hkey : IsKey key.toList) (hp : fieldTable.lookup key = none)
    (hv : v.IsPlain constants) : RoundTrips constants id key v := by
  have hu := hv.resolve
  have hw := isFieldText_plainText hu
  refine roundTrips_of_line hkey hw (search?_fieldLine hkey (hu.notMem (by decide) (by decide)))
    ((renderField_of_lookup_eq_none hp).trans (Emit.value_plain hv id key)) ?_
  have hint := hu.readInt?_plainText
  cases hn : (v.resolve constants).int? with
  | none =>
    rw [FieldTable.parse_verbatim hw.trimmed (hint.trans hn) (hu.fold?_plainText hn) hp]
    exact hu.decompose_ofText hn
  | some n =>
    rw [FieldTable.parse_int hw.trimmed (hint.trans hn) (by simp [hp])]
    cases hr : v.resolve constants with
    | int m =>
      rw [hr] at hn
      exact congrArg Value.int (Option.some.inj hn).symm
    | _ =>
      rw [hr] at hn
      exact absurd hn (by simp [Value.int?])

/-- **Numbers with names of their own in the source.** -/
theorem roundTrips_number {n : Int} (hkey : key ∈ numberKeys) (hn : IsInt64 n) :
    RoundTrips constants id key (.int n) := by
  have hstanding : (Value.int n).IsStanding constants := hn
  have hw : IsFieldText (showInt n) := isFieldText_plainText hstanding
  have hbracket : '[' ∉ showInt n := (isToken_showInt n).notMem (by decide) (by decide)
  simp only [numberKeys, List.mem_cons, List.not_mem_nil, or_false] at hkey
  have hword : IsKey key.toList := by
    rcases hkey with rfl | rfl <;> exact ⟨by decide, by decide⟩
  refine roundTrips_of_line hword hw (search?_fieldLine hword hbracket) ?_ ?_
  · rcases hkey with rfl | rfl <;> rfl
  · refine FieldTable.parse_int hw.trimmed (readInt?_showInt hn) ?_
    rcases hkey with rfl | rfl
    · intro parser hp
      rw [← Option.some.inj hp]
      exact genderRatio?_ne_nil _
    · intro parser hp
      rw [← Option.some.inj hp]
      exact friendship?_ne_nil _

/-- A text that starts with a character that starts no token is neither an integer nor folded. -/
theorem stray_head {c : Char} {s : Text} (hs : s.head? = some c) (hstray : Fold.IsStray c)
    (hp : c ≠ '+') (hm : c ≠ '-') : readInt? s = none ∧ fold? s = none := by
  cases s with
  | nil => exact absurd hs (by simp)
  | cons d s =>
    obtain rfl : d = c := Option.some.inj hs
    exact ⟨readInt?_eq_none List.mem_cons_self hstray.1 hp hm,
      fold?_eq_none (Fold.tokensFrom_stray hstray [] s)⟩

theorem isStray_brace : Fold.IsStray '{' := by
  refine ⟨by decide, by decide, by decide, fun d => ?_⟩
  unfold Fold.double?
  split <;> simp_all

/-- What is written for a list in braces can stand on one line. -/
theorem isFieldText_braceList {items : List Text} (hne : ∀ x ∈ ['\n', '/', '.'], ∀ t ∈ items, x ∉ t) :
    IsFieldText (Emit.braceList items) := by
  have hshape : ∃ s, Emit.braceList items = '{' :: (s ++ ['}']) ∧
      ∀ x ∈ ['\n', '/', '.'], x ∉ s := by
    cases items with
    | nil => exact ⟨[' '], rfl, by decide⟩
    | cons w ws =>
      refine ⟨[' '] ++ (joinWith [',', ' '] (w :: ws) ++ [' ']), by simp [Emit.braceList], ?_⟩
      intro x hx
      have hx' : x ≠ ' ' ∧ x ≠ ',' := by
        revert hx
        simp only [List.mem_cons, List.not_mem_nil, or_false]
        rintro (rfl | rfl | rfl) <;> decide
      have hjoin : x ∉ joinWith [',', ' '] (w :: ws) :=
        notMem_joinWith (by simp [hx']) (hne x hx)
      simp [hx'.1, hjoin]
  obtain ⟨s, hs, hmem⟩ := hshape
  have hall : ∀ x ∈ ['\n', '/', '.'], x ∉ '{' :: (s ++ ['}']) := by
    intro x hx
    have hx' : x ≠ '{' ∧ x ≠ '}' := by
      revert hx
      simp only [List.mem_cons, List.not_mem_nil, or_false]
      rintro (rfl | rfl | rfl) <;> decide
    simp [hx', hmem x hx]
  rw [hs]
  exact isFieldText_of_notMem isTrimmed_braces (by simp) (hall _ (by decide)) (hall _ (by decide))
    (hall _ (by decide)) (dropStart?_openers_of_head? rfl (by decide) (by decide))

/-- The texts of plain items are those of standing values. -/
theorem exists_of_mem_plainTexts {items : List Value} (h : ∀ v ∈ items, v.IsPlain constants)
    {t : Text} (ht : t ∈ plainTexts constants items) :
    ∃ u : Value, u.IsStanding constants ∧ t = u.plainText := by
  obtain ⟨v, hv, rfl⟩ := List.mem_map.1 ht
  exact ⟨_, (h v hv).resolve, rfl⟩

theorem notMem_plainTexts {items : List Value} (h : ∀ v ∈ items, v.IsPlain constants) {x : Char}
    (hx : isWordChar x = false) (hmark : x ∉ "-<>=!?: ()+".toList) :
    ∀ t ∈ plainTexts constants items, x ∉ t := by
  intro t ht
  obtain ⟨u, hu, rfl⟩ := exists_of_mem_plainTexts h ht
  exact hu.notMem hx hmark

/-- Plain items are read from the list in braces that is written for them. -/
theorem braceList?_plainTexts {items : List Value} (h : ∀ v ∈ items, v.IsPlain constants) :
    braceList? (Emit.braceList (plainTexts constants items)) =
      some (.list ((plainTexts constants items).map Value.scalar)) := by
  refine braceList?_braceList ?_ ?_ ?_ ?_
  · intro t ht
    obtain ⟨u, hu, rfl⟩ := exists_of_mem_plainTexts h ht
    exact hu.isTrimmed
  · intro t ht
    obtain ⟨u, hu, rfl⟩ := exists_of_mem_plainTexts h ht
    exact hu.ne_nil
  · intro t ht
    obtain ⟨u, hu, rfl⟩ := exists_of_mem_plainTexts h ht
    exact hu.isClosed
  · intro t ht r
    exact passes_of_notMem (notMem_plainTexts h (by decide) (by decide) t ht) _ r

/-- **Lists in braces.** -/
theorem roundTrips_list {items : List Value} (hkey : key ∈ listKeys)
    (h : ∀ v ∈ items, v.IsPlain constants) : RoundTrips constants id key (.list items) := by
  have hw : IsFieldText (Emit.braceList (plainTexts constants items)) := by
    refine isFieldText_braceList ?_
    simp only [List.mem_cons, List.not_mem_nil, or_false]
    rintro x (rfl | rfl | rfl) <;> exact notMem_plainTexts h (by decide) (by decide)
  have hbracket : '[' ∉ Emit.braceList (plainTexts constants items) := by
    rw [Emit.braceList]
    split
    · decide
    · refine List.not_mem_append (List.not_mem_append (by decide) ?_) (by decide)
      exact notMem_joinWith (by decide) (notMem_plainTexts h (by decide) (by decide))
  have hunread : readInt? (Emit.braceList (plainTexts constants items)) = none ∧
      fold? (Emit.braceList (plainTexts constants items)) = none := by
    rw [Emit.braceList]
    split <;> exact stray_head rfl isStray_brace (by decide) (by decide)
  simp only [listKeys, List.mem_cons, List.not_mem_nil, or_false] at hkey
  have hword : IsKey key.toList := by
    rcases hkey with rfl | rfl | rfl <;> exact ⟨by decide, by decide⟩
  have hlookup : fieldTable.lookup key = some braceList? := by
    rcases hkey with rfl | rfl | rfl <;> rfl
  refine roundTrips_of_line hword hw (search?_fieldLine hword hbracket) ?_ ?_
  · have hvalue : Emit.value id key constants (.list items) =
        .ok (Emit.braceList (plainTexts constants items)) := by
      rw [Emit.value, items_plain h]
      rfl
    rw [← hvalue]
    rcases hkey with rfl | rfl | rfl <;> rfl
  · rw [FieldTable.parse_found hw.trimmed hunread.1 hunread.2 hlookup (braceList?_plainTexts h),
      Value.decompose, decomposeItems_scalar h, Value.resolve]

section

variable {name : Text} {names : List Text}

theorem notMem_flags (h : ∀ t ∈ names, IsName t) {x : Char} (hx : isWordChar x = false)
    (hmark : x ∉ " |".toList) : x ∉ joinWith " | ".toList names := by
  have hne : ∀ y ∈ " |".toList, x ≠ y := by
    rintro y hy rfl
    exact hmark hy
  refine notMem_joinWith (by simp [hne ' ' (by decide), hne '|' (by decide)]) fun t ht => ?_
  exact notMem_of_word (h t ht).1.2 hx

/-- A union of flags can stand on one line. -/
theorem isFieldText_flags (h : ∀ t ∈ name :: names, IsName t) :
    IsFieldText (joinWith " | ".toList (name :: names)) := by
  have htrim : IsTrimmed (joinWith " | ".toList (name :: names)) :=
    isTrimmed_joinWith (fun t ht => (h t ht).1.isTrimmed) fun t ht => (h t ht).1.1
  exact isFieldText_of_notMem htrim (joinWith_cons_ne_nil (h _ List.mem_cons_self).1.1)
    (notMem_flags h (by decide) (by decide)) (notMem_flags h (by decide) (by decide))
    (notMem_flags h (by decide) (by decide)) (dropStart?_openers_of_notMem
      (List.not_mem_append (notMem_flags h (by decide) (by decide)) (by decide)))

/-- A union of flags is neither an integer nor folded. -/
theorem unread_flags (h : ∀ t ∈ name :: names, IsName t) :
    readInt? (joinWith " | ".toList (name :: names)) = none ∧
      fold? (joinWith " | ".toList (name :: names)) = none := by
  have hfirst := h _ List.mem_cons_self
  cases names with
  | nil => exact ⟨hfirst.2, fold?_name hfirst⟩
  | cons other names =>
    have hmem : '|' ∈ joinWith " | ".toList (name :: other :: names) := by
      rw [joinWith_cons_cons]
      simp
    refine ⟨readInt?_eq_none hmem (by decide) (by decide) (by decide), ?_⟩
    rw [joinWith_cons_cons, List.append_assoc]
    exact fold?_eq_none (Fold.tokensFrom_name (by simpa using hfirst.1.1) (by simpa using hfirst.2)
      hfirst.1.2 (by simp [isBlank]))

end

/-- **Flags.** -/
theorem roundTrips_flags {names : List String} (h : ∀ name ∈ names, IsName name.toList) :
    RoundTrips constants id "flags" (.list (names.map .str)) := by
  have hword : IsKey "flags".toList := ⟨by decide, by decide⟩
  cases names with
  | nil =>
    have hzero : (Value.int 0).IsStanding constants := by
      show IsInt64 0
      decide
    exact roundTrips_of_line (w := ['0']) hword (isFieldText_plainText hzero)
      (search?_fieldLine hword (by decide)) rfl rfl
  | cons name names =>
    have hplain : ∀ v ∈ (name :: names).map Value.str, v.IsPlain constants :=
      List.forall_mem_map.2 h
    have htexts : plainTexts constants ((name :: names).map Value.str) =
        (name :: names).map String.toList := by
      rw [plainTexts, List.map_map]
      rfl
    have hnames : ∀ t ∈ name.toList :: names.map String.toList, IsName t :=
      List.forall_mem_map.2 h
    have hw := isFieldText_flags hnames
    have hunread := unread_flags hnames
    refine roundTrips_of_line hword hw
      (search?_fieldLine hword (notMem_flags hnames (by decide) (by decide))) ?_ ?_
    · have hitems := items_plain hplain id "flags"
      rw [htexts] at hitems
      show (Emit.items id "flags" constants ((name :: names).map Value.str)).map _ = _
      rw [hitems]
      rfl
    · have hlookup : fieldTable.lookup "flags" = some flags? := rfl
      rw [FieldTable.parse_found hw.trimmed hunread.1 hunread.2 hlookup (flags?_joinWith hnames),
        Value.decompose, ← List.map_cons (f := String.toList), ← htexts,
        decomposeItems_scalar hplain, Value.resolve]

theorem notMem_sizesText {w h : Text} (hw : IsToken w) (hh : IsToken h) {x : Char}
    (hx : isWordChar x = false) (hmark : x ∉ "(-, )".toList) : x ∉ sizesText w h := by
  have hne : ∀ y ∈ "(-, )".toList, x ≠ y := by
    rintro y hy rfl
    exact hmark hy
  have hopener : x ∉ sizesOpener := by
    have hword : x ∉ "MON_COORDS_SIZE".toList := notMem_of_word (by decide) hx
    have hshape : sizesOpener = "MON_COORDS_SIZE".toList ++ ['('] := by decide
    rw [hshape]
    exact List.not_mem_append hword (by simp [hne '(' (by decide)])
  have hw' := hw.notMem hx (hne '-' (by decide))
  have hh' := hh.notMem hx (hne '-' (by decide))
  refine List.not_mem_append (List.not_mem_append (List.not_mem_append
    (List.not_mem_append hopener hw') ?_) hh') ?_
  · simp [hne ',' (by decide), hne ' ' (by decide)]
  · simp [hne ')' (by decide)]

/-- **Sizes of pictures.** -/
theorem roundTrips_size {width height : Value} (hkey : key ∈ sizeKeys) (hwidth : width.IsScalar)
    (hheight : height.IsScalar) : RoundTrips constants id key (.list [width, height]) := by
  have hmem : ∀ {x : Char}, isWordChar x = false → x ∉ "(-, )".toList →
      x ∉ sizesText width.branchText height.branchText :=
    notMem_sizesText hwidth.isToken hheight.isToken
  have hw : IsFieldText (sizesText width.branchText height.branchText) := by
    exact isFieldText_of_notMem (isTrimmed_sizesText _ _) (by simp [sizesText])
      (hmem (by decide) (by decide)) (hmem (by decide) (by decide)) (hmem (by decide) (by decide))
      (dropStart?_openers_of_head? (c := 'M') rfl (by decide) (by decide))
  have hunread : readInt? (sizesText width.branchText height.branchText) = none ∧
      fold? (sizesText width.branchText height.branchText) = none :=
    stray_head (c := 'M') rfl (Fold.isStray_of_isWordChar (by decide) (by decide)) (by decide)
      (by decide)
  have hkeys : key = "frontPicSize" ∨ key = "backPicSize" ∨ key = "frontPicSizeFemale" ∨
      key = "backPicSizeFemale" := by
    simpa [sizeKeys] using hkey
  have hword : IsKey key.toList := by
    rcases hkeys with rfl | rfl | rfl | rfl <;> exact ⟨by decide, by decide⟩
  have hlookup : fieldTable.lookup key = some coordsSize? := by
    rcases hkeys with rfl | rfl | rfl | rfl <;> rfl
  have hresolve : ∀ u : Value, u.IsScalar →
      (Value.scalar u.branchText).decompose = u.resolve constants := by
    intro u hu
    have hread := (hu.isStanding : u.IsStanding constants).decompose_scalar
    rw [hu.plainText_eq] at hread
    rw [hread, hu.resolve_eq]
  refine roundTrips_of_line hword hw
    (search?_fieldLine hword (hmem (by decide) (by decide))) ?_ ?_
  · have hvalue : Emit.coordsSize id key constants (.list [width, height]) =
        .ok (sizesText width.branchText height.branchText) := by
      rw [Emit.coordsSize, hwidth.value_eq, hheight.value_eq]
      rfl
    rw [← hvalue]
    rcases hkeys with rfl | rfl | rfl | rfl <;> rfl
  · rw [FieldTable.parse_found hw.trimmed hunread.1 hunread.2 hlookup
      (coordsSize?_sizesText hwidth.isToken hheight.isToken), Value.decompose,
      decomposeItems_eq_map, Value.resolve, resolveItems_eq_map]
    simp only [List.map_cons, List.map_nil, hresolve width hwidth, hresolve height hheight]

/-- A string without a conditional is not taken apart. -/
theorem decompose_ofText_of_find? {s : String} (h : Conditional.find? s.toList = none) :
    (Value.ofText s.toList).decompose = .str s := by
  simp only [Value.ofText, String.ofList_toList, Value.decompose, h]

theorem localized_eq (t : Text) :
    Emit.localized t = ['_', '('] ++ '"' :: (escape t ++ '"' :: [')']) := by
  simp [Emit.localized]

/-- A localized string can stand on one line. -/
theorem isFieldText_localized (t : Text) : IsFieldText (Emit.localized t) where
  trimmed := by
    have hmark : ∀ c : Char, isBlank c = false → IsTrimmed [c] := fun c hc =>
      isTrimmed_of_forall (by simpa using hc)
    have hshape : Emit.localized t = ['_'] ++ (('(' :: '"' :: (escape t ++ ['"'])) ++ [')']) := by
      simp [Emit.localized]
    rw [hshape]
    exact isTrimmed_append (hmark '_' rfl) (by simp) (hmark ')' rfl) (by simp) _
  nonempty := by simp [localized_eq]
  newline := by simp [localized_eq, newline_notMem_escape]
  comment := by
    have hshape : Emit.localized t ++ [','] =
        ['_', '(', '"'] ++ (escape t ++ '"' :: [')', ',']) := by simp [localized_eq]
    have hstate : quoteAfter .plain ['_', '(', '"'] = .quoted := rfl
    rw [hshape, cutCommentFrom_append (by decide), hstate, cutCommentFrom_escape]
    rfl
  separator := by
    have hinside : levelAfter (0, .plain) ['_', '('] = (1, .plain) := rfl
    have hquote : levelStep (1, .plain) '"' = (1, .quoted) := rfl
    rw [localized_eq]
    refine Passes.append (passes_of_notMem (by decide) _ _) ?_
    rw [hinside]
    refine passes_cons (by simp) ?_
    rw [hquote]
    -- Inside the quotes no separator counts, and the escapes keep the quotes closed.
    obtain ⟨hpass, hlevel⟩ := passes_escape ", .".toList 1 t ('"' :: [')'] ++ [])
    refine hpass.append ?_
    rw [hlevel]
    exact passes_of_notMem (by decide) _ _
  literal := by
    intro rest hrest
    have hshape : Emit.localized t ++ [','] =
        '_' :: '(' :: '"' :: (escape t ++ '"' :: [')', ',']) := by simp [localized_eq]
    have hopener : (dropStart? "COMPOUND_STRING(".toList (Emit.localized t ++ [','])).or
        (dropStart? "_(".toList (Emit.localized t ++ [','])) =
          some ('"' :: (escape t ++ '"' :: [')', ','])) := by
      rw [hshape]
      simp [dropStart?]
    have hsegments := segments_quoted (b := []) (r := [')', ',']) (by simp) (by decide) t
    rw [List.nil_append] at hsegments
    rw [hopener] at hrest
    rw [← Option.some.inj hrest, hsegments]
    rfl

/-- The line of a localized string opens no text that the string does not open. -/
theorem search?_localized {t : Text} (hkey : IsKey key.toList) (h : search? dexTextAt? t = none) :
    search? dexTextAt? (Emit.fieldLine key (Emit.localized t)) = none := by
  have hshape : Emit.fieldLine key (Emit.localized t) =
      (Emit.fieldIndent ++ '.' :: (key.toList ++ " = _(".toList)) ++
        '"' :: (escape t ++ '"' :: "),".toList) := by
    simp [Emit.fieldLine, localized_eq]
  have hstart : '[' ∉ Emit.fieldIndent ++ '.' :: (key.toList ++ " = _(".toList) := by
    have hkey' : '[' ∉ key.toList := hkey.notMem (by decide)
    simp [Emit.fieldIndent, hkey']
  rw [hshape]
  refine search?_dexTextAt?_quote (search?_dexTextAt?_of_notMem (x := '[') (by decide) hstart) ?_
  exact search?_dexTextAt?_quote (search?_dexTextAt?_escape h)
    (search?_dexTextAt?_of_notMem (x := '[') (by decide) (by decide))

theorem isKey_of_mem_labelKeys (hkey : key ∈ labelKeys) : IsKey key.toList := by
  simp only [labelKeys, List.mem_cons, List.not_mem_nil, or_false] at hkey
  rcases hkey with rfl | rfl <;> exact ⟨by decide, by decide⟩

theorem isKey_description : IsKey "description".toList := ⟨by decide, by decide⟩

theorem renderField_label (hkey : key ∈ labelKeys) (id : String) (constants : ConstantTable)
    (s : String) : renderField id key constants (.str s) = .ok (Emit.localized s.toList) := by
  simp only [labelKeys, List.mem_cons, List.not_mem_nil, or_false] at hkey
  rcases hkey with rfl | rfl <;> rfl

/-- A localized string is read as its text, and then taken apart. -/
theorem parse_localized (hkey : key ∈ labelKeys) (t : Text) :
    (fieldTable.parse key (Emit.localized t)).value = (Value.ofText t).decompose := by
  have hunread : readInt? (Emit.localized t) = none ∧ fold? (Emit.localized t) = none :=
    stray_head (c := '_') rfl (Fold.isStray_of_isWordChar (by decide) (by decide)) (by decide)
      (by decide)
  have hlookup : fieldTable.lookup key = some localized? := by
    simp only [labelKeys, List.mem_cons, List.not_mem_nil, or_false] at hkey
    rcases hkey with rfl | rfl <;> rfl
  exact FieldTable.parse_found (isFieldText_localized t).trimmed hunread.1 hunread.2 hlookup
    (localized?_localized t)

/-- **Localized strings.** -/
theorem roundTrips_label {s : String} (hkey : key ∈ labelKeys) (h : IsLabel s.toList) :
    RoundTrips constants id key (.str s) := by
  have hword := isKey_of_mem_labelKeys hkey
  refine roundTrips_of_line hword (isFieldText_localized s.toList) (search?_localized hword h.opening)
    (renderField_label hkey id constants s) ?_
  rw [parse_localized hkey]
  exact decompose_ofText_of_find? h.conditional

/-- An empty description can stand on one line. -/
theorem isFieldText_emptyString : IsFieldText "COMPOUND_STRING(\"\")".toList := by
  refine ⟨isTrimmed_of_forall (by decide), by decide, by decide, by decide,
    passes_nil_of_notMem (x := '.') (by decide) (by decide) _, fun rest hrest => ?_⟩
  have hopener : (dropStart? "COMPOUND_STRING(".toList
      ("COMPOUND_STRING(\"\")".toList ++ [','])).or (dropStart? "_(".toList
        ("COMPOUND_STRING(\"\")".toList ++ [','])) = some "\"\"),".toList := by decide
  rw [hopener] at hrest
  rw [← Option.some.inj hrest]
  decide

/-- Bare escaped text is read as its text, and then taken apart. -/
theorem parse_escape {t : Text} (htrim : IsTrimmed (escape t)) (hint : readInt? (escape t) = none)
    (hfold : fold? (escape t) = none) (hwrap : unwrapLiteral (escape t) = escape t) :
    (fieldTable.parse "description" (escape t)).value = (Value.ofText t).decompose :=
  FieldTable.parse_found htrim hint hfold rfl (description?_escape htrim hwrap)

/-- **Descriptions.** -/
theorem roundTrips_description {s : String} (h : IsDescription s.toList) :
    RoundTrips constants id "description" (.str s) := by
  have hword := isKey_description
  by_cases hs : s.toList = []
  · have hempty : s = "" := String.toList_inj.1 hs
    subst hempty
    exact roundTrips_of_line hword isFieldText_emptyString (search?_fieldLine hword (by decide)) rfl rfl
  · refine ⟨⟨"description", Emit.compoundString s.toList, escape s.toList⟩, rfl, rfl, ?_, ?_⟩
    · intro scan e hstate
      have hraw : scanner.rawText (openerLine "description") = none :=
        search?_dexTextAt?_of_notMem (x := '[') (by decide)
          (notMem_openerLine hword (by decide) (by decide))
      exact reads_compoundString hs hword hstate hraw (headerAt?_openerLine speciesStem)
    · rw [parse_escape h.trimmed h.integer h.folded h.literal]
      exact decompose_ofText_of_find? h.conditional

/-- An evolution in words is one. -/
theorem IsEvolution.isEvolutionRecord {e : Record} (h : IsEvolution e) : IsEvolutionRecord e := by
  cases h with
  | target hmethod hend hparam htarget =>
    exact .target (hmethod.isMethod hend) hparam.isArgument htarget.isToken.isPart
  | args hmethod hend hargs hlength =>
    exact .args (hmethod.isMethod hend) (fun v hv => (hargs v hv).isArgument) hlength

/-- An evolution is written in tokens. -/
theorem IsEvolution.isToken {e : Record} (h : IsEvolution e) : ∀ t ∈ evolutionParts e, IsToken t := by
  cases h with
  | target hmethod hend hparam htarget =>
    rw [IsEvolutionRecord.evolutionParts_target hparam.isArgument]
    simp only [List.forall_mem_cons]
    exact ⟨hmethod.isToken, hparam.isToken, htarget.isToken, by simp⟩
  | args hmethod hend hargs hlength =>
    rw [IsEvolutionRecord.evolutionParts_args]
    simp only [List.forall_mem_cons, List.forall_mem_map]
    exact ⟨hmethod.isToken, fun v hv => (hargs v hv).isToken⟩

theorem notMem_evolutionsText {groups : List (List Text)}
    (h : ∀ g ∈ groups, ∀ t ∈ g, IsToken t) {x : Char} (hx : isWordChar x = false)
    (hmark : x ∉ "(\x7b\x7d-, )".toList) : x ∉ evolutionsText groups := by
  have hne : ∀ y ∈ "(\x7b\x7d-, )".toList, x ≠ y := by
    rintro y hy rfl
    exact hmark hy
  have hopener : x ∉ evolutionsOpener := by
    have hword : x ∉ "EVOLUTION".toList := notMem_of_word (by decide) hx
    have hshape : evolutionsOpener = "EVOLUTION".toList ++ ['('] := by decide
    rw [hshape]
    exact List.not_mem_append hword (by simp [hne '(' (by decide)])
  have hseparator : x ∉ [',', ' '] := by simp [hne ',' (by decide), hne ' ' (by decide)]
  have hgroups : x ∉ joinWith [',', ' '] (groups.map braced) := by
    refine notMem_joinWith hseparator fun w hw => ?_
    obtain ⟨g, hg, rfl⟩ := List.mem_map.1 hw
    have hparts : x ∉ joinWith [',', ' '] g :=
      notMem_joinWith hseparator fun t ht => (h g hg t ht).notMem hx (hne '-' (by decide))
    simp [braced, hne '{' (by decide), hne '}' (by decide), hparts]
  refine List.not_mem_append hopener (List.not_mem_append hgroups ?_)
  simp [hne ')' (by decide)]

/-- **Evolutions.** -/
theorem roundTrips_evolutions {es : List Record} (h : ∀ e ∈ es, IsEvolution e) :
    RoundTrips constants id "evolutions" (.list (es.map .record)) := by
  have hword : IsKey "evolutions".toList := ⟨by decide, by decide⟩
  -- Records hold no conditional, so neither way rewrites the items.
  have hresolve : ∀ es : List Record, resolveItems constants (es.map .record) = es.map .record := by
    intro es
    rw [resolveItems_eq_map, List.map_map]
    rfl
  have hdecompose : ∀ es : List Record, decomposeItems (es.map .record) = es.map .record := by
    intro es
    rw [decomposeItems_eq_map, List.map_map]
    rfl
  cases es with
  | nil =>
    -- The empty list has a text of its own, which the field reader knows.
    have hw : IsFieldText
        "(const struct Evolution[]) \x7b \x7bEVOLUTIONS_END\x7d, \x7d".toList := by
      refine isFieldText_of_notMem ⟨by decide, by decide⟩ (by decide) (by decide) (by decide)
        (by decide) (by decide)
    exact roundTrips_of_line hword hw (by decide) rfl rfl
  | cons e es =>
    have hrecords : ∀ f ∈ e :: es, IsEvolutionRecord f := fun f hf => (h f hf).isEvolutionRecord
    have htokens : ∀ g ∈ (e :: es).map evolutionParts, ∀ t ∈ g, IsToken t :=
      List.forall_mem_map.2 fun f hf => (h f hf).isToken
    have hmem : ∀ {x : Char}, isWordChar x = false → x ∉ "(\x7b\x7d-, )".toList →
        x ∉ evolutionsText ((e :: es).map evolutionParts) := notMem_evolutionsText htokens
    have hw : IsFieldText (evolutionsText ((e :: es).map evolutionParts)) := by
      exact isFieldText_of_notMem (isTrimmed_evolutionsText _) (by simp [evolutionsText])
        (hmem (by decide) (by decide)) (hmem (by decide) (by decide)) (hmem (by decide) (by decide))
        (dropStart?_openers_of_head? (c := 'E') rfl (by decide) (by decide))
    -- The text starts with the letter of its macro: neither a number nor an expression.
    have hunread : readInt? (evolutionsText ((e :: es).map evolutionParts)) = none ∧
        fold? (evolutionsText ((e :: es).map evolutionParts)) = none :=
      stray_head (c := 'E') rfl (Fold.isStray_of_isWordChar (by decide) (by decide)) (by decide)
        (by decide)
    refine roundTrips_of_line hword hw (search?_fieldLine hword (hmem (by decide) (by decide))) ?_ ?_
    · rw [← Emit.evolutions_parts (List.cons_ne_nil e es) hrecords id "evolutions" constants]
      rfl
    · have hlookup : fieldTable.lookup "evolutions" = some evolutions? := rfl
      rw [FieldTable.parse_found hw.trimmed hunread.1 hunread.2 hlookup (evolutions?_parts hrecords),
        Value.decompose, hdecompose, Value.resolve, hresolve]

/-- **A field of a species round-trips.** -/
theorem Legible.roundTrips (h : Legible constants key v) (hkey : IsKey key.toList) (id : String) :
    RoundTrips constants id key v := by
  cases h with
  | plain hp hv => exact roundTrips_plain hkey hp hv
  | list hmem hv => exact roundTrips_list hmem hv
  | label hmem hs => exact roundTrips_label hmem hs
  | description hs => exact roundTrips_description hs
  | number hmem hn => exact roundTrips_number hmem hn
  | flags hnames => exact roundTrips_flags hnames
  | size hmem hw hh => exact roundTrips_size hmem hw hh
  | evolutions hes => exact roundTrips_evolutions hes

end TableSync.Species
