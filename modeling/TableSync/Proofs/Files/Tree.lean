import TableSync.Files.Tree

/-!
# Trees of files, seen file by file

A change of a tree is described by the files that are at its paths before and after it; directories
matter only where they stand in the way of a file.  A tree is a list of nodes, of which the first at
a path counts, but no statement further on speaks of that list.

* `FileTree.file?` is the file at a path.
* `FileTree.Admits` says that nothing stands in the way of a file, and `Apart` that files at some
  paths do not stand in the way of each other.  `FileTree.Clear` is the first for a list of paths:
  it is what a project is like to begin with, and what all work on it keeps.
* `FileTree.Opens` says that directories have been made on the way to a path, and `exists_makeDirs`
  that they are where no file is on the way.
* `FileTree.Changes` says that a tree has become another one by changes of files at certain paths.
  It is reflexive and transitive, so work is described by it step by step.
* `Changes.put`, `Changes.remove`, `Changes.setTime` and `exists_makeDirs` say what the single
  changes do; each is a change of the node at one path, by `Changes.of_node`.
-/

set_option autoImplicit false

namespace TableSync

/-! ## Starts of paths -/

theorem Path.mem_starts {p q : Path} : q ∈ Path.starts p ↔ q <+: p := by
  induction p generalizing q with
  | nil => rw [Path.starts, List.mem_singleton, List.prefix_nil]
  | cons name p ih =>
    rw [Path.starts, List.mem_cons, List.mem_map]
    constructor
    · rintro (rfl | ⟨r, hr, rfl⟩)
      · exact List.nil_prefix
      · exact List.cons_prefix_cons.2 ⟨rfl, ih.1 hr⟩
    · intro h
      cases q with
      | nil => exact Or.inl rfl
      | cons m q =>
        obtain ⟨rfl, hq⟩ := List.cons_prefix_cons.1 h
        exact Or.inr ⟨q, ih.2 hq, rfl⟩

/-- No path of a list leads through another one. -/
def Apart (ps : List Path) : Prop := ∀ p ∈ ps, ∀ q ∈ ps, ¬ q <+: p.dropLast

instance (ps : List Path) : Decidable (Apart ps) :=
  inferInstanceAs (Decidable (∀ p ∈ ps, ∀ q ∈ ps, ¬ q <+: p.dropLast))

namespace FileTree

variable {t t' : FileTree} {p q : Path}

/-! ## The file at a path -/

/-- The file at a path. -/
def file? (t : FileTree) (p : Path) : Option File :=
  match t.node? p with
  | some (.file f) => some f
  | _ => none

/-- The content of the file at a path. -/
def content? (t : FileTree) (p : Path) : Option Content := (t.file? p).map File.content

theorem node?_eq_of_file? {f : File} (h : t.file? p = some f) : t.node? p = some (.file f) := by
  rw [file?] at h
  split at h
  · next hnode =>
    rw [hnode, Option.some.inj h]
  · exact absurd h (by simp)

theorem isFile_eq (t : FileTree) (p : Path) : t.isFile p = (t.file? p).isSome := by
  rw [isFile, file?]
  cases t.node? p with
  | none => rfl
  | some node => cases node <;> rfl

/-- Nothing stands in the way of a file: there is no directory in its place, and no file on the way
to it. -/
structure Admits (t : FileTree) (p : Path) : Prop where
  /-- There is no directory in its place. -/
  place : t.isDirectory p = false
  /-- No file is on the way to it. -/
  way : ∀ q, q <+: p.dropLast → t.isFile q = false

theorem admits_iff : t.Admits p ↔
    t.isDirectory p = false ∧ ∀ q ∈ Path.starts p.dropLast, t.isFile q = false :=
  ⟨fun h => ⟨h.place, fun q hq => h.way q (Path.mem_starts.1 hq)⟩,
    fun h => ⟨h.1, fun q hq => h.2 q (Path.mem_starts.2 hq)⟩⟩

instance (t : FileTree) (p : Path) : Decidable (t.Admits p) := decidable_of_iff _ admits_iff.symm

theorem Admits.ne_nil (h : t.Admits p) : p ≠ [] := by
  rintro rfl
  exact absurd h.place (by simp [isDirectory, node?])

theorem Admits.node?_eq_none (h : t.Admits p) (hnone : t.file? p = none) : t.node? p = none := by
  cases hnode : t.node? p with
  | none => rfl
  | some node =>
    cases node with
    | file f =>
      rw [file?, hnode] at hnone
      exact absurd hnone (by simp)
    | directory time =>
      have hplace := h.place
      rw [isDirectory, hnode] at hplace
      exact absurd hplace (by simp)

theorem Admits.contains_eq (h : t.Admits p) : t.contains p = (t.file? p).isSome := by
  rw [contains]
  cases hfile : t.file? p with
  | none => rw [h.node?_eq_none hfile]; rfl
  | some f => rw [node?_eq_of_file? hfile]; rfl

theorem Admits.time?_eq (h : t.Admits p) : t.time? p = (t.file? p).map File.time := by
  rw [time?]
  cases hfile : t.file? p with
  | none => rw [h.node?_eq_none hfile]; rfl
  | some f => rw [node?_eq_of_file? hfile]; rfl

theorem find_of_file? {f : File} (h : t.file? p = some f) : t.find p = .ok (.file f) := by
  rw [find, node?_eq_of_file? h]

/-- Where a file could be but is not, nothing is found. -/
theorem Admits.find_of_none (h : t.Admits p) (hnone : t.file? p = none) :
    t.find p = .error .notFound := by
  have hway : (Path.starts p.dropLast).any t.isFile = false := by
    rw [List.any_eq_false]
    intro q hq
    rw [h.way q (Path.mem_starts.1 hq)]
    exact Bool.false_ne_true
  rw [find, h.node?_eq_none hnone]
  simp only [hway]
  rfl

/-- What is read at a path is the text of the file there. -/
theorem Admits.readText_eq (h : t.Admits p) :
    t.readText p = match t.content? p with
      | some (.text s) => .ok s
      | some (.binary _) => .error .notUtf8
      | none => .error .notFound := by
  rw [readText, content, content?]
  cases hfile : t.file? p with
  | none => rw [h.find_of_none hfile]; rfl
  | some f =>
    rw [find_of_file? hfile]
    cases hcontent : f.content <;> simp [hcontent]

/-! ## Putting nodes -/

theorem lookup_putNode (p q : Path) (node : Node) (nodes : List (Path × Node)) :
    (putNode p node nodes).lookup q = if q = p then some node else nodes.lookup q := by
  induction nodes with
  | nil =>
    rw [putNode, List.lookup_cons, List.lookup_nil]
    by_cases h : q = p
    · rw [if_pos h, beq_iff_eq.2 h]
    · rw [if_neg h, beq_eq_false_iff_ne.2 h]
  | cons n rest ih =>
    obtain ⟨r, n⟩ := n
    rw [putNode]
    by_cases hr : r = p
    · rw [if_pos hr, List.lookup_cons, List.lookup_cons]
      by_cases h : q = p
      · rw [if_pos h, hr, beq_iff_eq.2 h]
      · rw [if_neg h, hr, beq_eq_false_iff_ne.2 h]
    · rw [if_neg hr, List.lookup_cons, List.lookup_cons, ih]
      by_cases h : q = r
      · simp [h, hr]
      · rw [beq_eq_false_iff_ne.2 h]

theorem lookup_filter_ne (p q : Path) (nodes : List (Path × Node)) :
    (nodes.filter (·.1 ≠ p)).lookup q = if q = p then none else nodes.lookup q := by
  by_cases h : q = p
  · rw [if_pos h, List.lookup_eq_none_iff]
    intro n hn
    have hne : n.1 ≠ p := by simpa using (List.mem_filter.1 hn).2
    rw [h]
    exact bne_iff_ne.2 (Ne.symm hne)
  · rw [if_neg h]
    induction nodes with
    | nil => rfl
    | cons n rest ih =>
      obtain ⟨r, n⟩ := n
      by_cases hr : r = p
      · have hqr : q ≠ r := fun hqr => h (hqr.trans hr)
        rw [List.filter_cons_of_neg (by simpa using hr), ih, List.lookup_cons,
          beq_eq_false_iff_ne.2 hqr]
      · rw [List.filter_cons_of_pos (by simpa using hr), List.lookup_cons, List.lookup_cons, ih]

theorem node?_put (hp : p ≠ []) (node : Node) (q : Path) :
    (t.put p node).node? q = if q = p then some node else t.node? q := by
  cases q with
  | nil => rw [if_neg (Ne.symm hp)]; rfl
  | cons name q => exact lookup_putNode p (name :: q) node t.nodes

/-! ## Making directories

The directories that are missing on the way to a path are put in one after the other, the outermost
first.  Only empty places are filled, so no file changes. -/

/-- Directories at paths at which there was nothing. -/
theorem node?_foldl_put {qs : List Path} (hne : ∀ r ∈ qs, r ≠ []) (t : FileTree) (q : Path) :
    (q ∉ qs → (qs.foldl (fun t q => t.put q (.directory t.clock)) t).node? q = t.node? q) ∧
      (q ∈ qs → (qs.foldl (fun t q => t.put q (.directory t.clock)) t).isDirectory q = true) ∧
      t.clock ≤ (qs.foldl (fun t q => t.put q (.directory t.clock)) t).clock := by
  induction qs generalizing t with
  | nil => exact ⟨fun _ => rfl, fun h => absurd h List.not_mem_nil, Nat.le_refl _⟩
  | cons r qs ih =>
    obtain ⟨hsame, hmade, hclock⟩ := ih (fun s hs => hne s (List.mem_cons_of_mem r hs))
      (t.put r (.directory t.clock))
    have hr : r ≠ [] := hne r List.mem_cons_self
    refine ⟨fun hq => ?_, fun hq => ?_, Nat.le_trans (Nat.le_succ _) hclock⟩
    · rw [List.foldl_cons, hsame fun hmem => hq (List.mem_cons_of_mem r hmem), node?_put hr,
        if_neg fun h => hq (List.mem_cons.2 (Or.inl h))]
    · rw [List.foldl_cons]
      by_cases hmem : q ∈ qs
      · exact hmade hmem
      · have hqr : q = r := (List.mem_cons.1 hq).resolve_right hmem
        rw [isDirectory, hsame hmem, node?_put hr, if_pos hqr]

/-- A tree has become another one in which directories have been made on the way to a path. -/
structure Opens (t t' : FileTree) (p : Path) : Prop where
  /-- Every file is as it was. -/
  file : ∀ q, t'.file? q = t.file? q
  /-- A directory that is new is on the way to the path. -/
  directory : ∀ q, ¬ q <+: p → t'.isDirectory q = t.isDirectory q
  /-- The clock does not go back. -/
  clock : t.clock ≤ t'.clock

/-- The places on the way to a path that are empty. -/
theorem mem_missing_iff {q : Path} :
    q ∈ (Path.starts p).filter (!t.contains ·) ↔ q <+: p ∧ t.contains q = false := by
  rw [List.mem_filter, Path.mem_starts, Bool.not_eq_true']

theorem ne_nil_of_mem_missing : ∀ q ∈ (Path.starts p).filter (!t.contains ·), q ≠ [] := by
  rintro q hq rfl
  exact absurd (mem_missing_iff.1 hq).2 (by simp [contains, node?])

/-- Directories in empty places change no file. -/
theorem opens_openWay (t : FileTree) (p : Path) : Opens t (t.openWay p) p := by
  have hall := node?_foldl_put (ne_nil_of_mem_missing (t := t) (p := p)) t
  refine ⟨fun q => ?_, fun q hq => ?_, (hall []).2.2⟩
  · by_cases hmem : q ∈ (Path.starts p).filter (!t.contains ·)
    · have hnone : t.node? q = none := by
        have hcontains := (mem_missing_iff.1 hmem).2
        rw [contains, Option.isSome_eq_false_iff, Option.isNone_iff_eq_none] at hcontains
        exact hcontains
      have hmade := (hall q).2.1 hmem
      rw [file?, file?, hnone, openWay]
      rw [isDirectory] at hmade
      split at hmade
      · next heq =>
        rw [heq]
      · exact absurd hmade (by simp)
    · rw [file?, file?, openWay, (hall q).1 hmem]
  · have hmem : q ∉ (Path.starts p).filter (!t.contains ·) := fun hmem =>
      hq (mem_missing_iff.1 hmem).1
    rw [isDirectory, isDirectory, openWay, (hall q).1 hmem]

theorem isDirectory_openWay (h : t.contains p = false) : (t.openWay p).isDirectory p = true :=
  (node?_foldl_put ne_nil_of_mem_missing t p).2.1 (mem_missing_iff.2 ⟨List.prefix_refl p, h⟩)

/-- Where no file is on the way, directories are made. -/
theorem exists_makeDirs (h : ∀ q, q <+: p → t.isFile q = false) :
    ∃ t', t.makeDirs p = .ok t' ∧ Opens t t' p ∧ t'.isDirectory p = true := by
  rw [makeDirs]
  cases hnode : t.node? p with
  | some node =>
    cases node with
    | file f =>
      have hfile := h p (List.prefix_refl p)
      rw [isFile, hnode] at hfile
      exact absurd hfile (by simp)
    | directory time =>
      refine ⟨t, by rw [find, hnode], ⟨fun _ => rfl, fun _ _ => rfl, Nat.le_refl _⟩, ?_⟩
      rw [isDirectory, hnode]
  | none =>
    have hfind : t.find p = .error .notFound := by
      have hway : (Path.starts p.dropLast).any t.isFile = false := by
        rw [List.any_eq_false]
        intro q hq
        rw [h q ((Path.mem_starts.1 hq).trans (List.dropLast_prefix p))]
        exact Bool.false_ne_true
      rw [find, hnode]
      simp only [hway]
      rfl
    refine ⟨t.openWay p, by rw [hfind], opens_openWay t p, isDirectory_openWay ?_⟩
    rw [contains, hnode]
    rfl

/-! ## Changes of files

That files can still be put where they could be before is part of a change: a file that is put at
one of the paths must not stand in the way to another one, which is why the paths are `Apart`. -/

/-- Nothing stands in the way of files at some paths. -/
def Clear (ps : List Path) (t : FileTree) : Prop := ∀ p ∈ ps, t.Admits p

instance (ps : List Path) (t : FileTree) : Decidable (t.Clear ps) :=
  inferInstanceAs (Decidable (∀ p ∈ ps, t.Admits p))

/-- A tree has become another one by changes of files at certain paths; where files could be put
before, they can be put still. -/
structure Changes (ps : List Path) (touched : Path → Prop) (t t' : FileTree) : Prop where
  /-- Where files could be put before, they can be put still. -/
  clear : t.Clear ps → t'.Clear ps
  /-- The clock does not go back. -/
  clock : t.clock ≤ t'.clock
  /-- A file at another path is as it was. -/
  frame : ∀ q, ¬ touched q → t'.file? q = t.file? q

namespace Changes

variable {ps : List Path} {touched other : Path → Prop} {t'' : FileTree}

theorem refl (ps : List Path) (touched : Path → Prop) (t : FileTree) : Changes ps touched t t :=
  ⟨id, Nat.le_refl _, fun _ _ => rfl⟩

theorem trans (h : Changes ps touched t t') (h' : Changes ps touched t' t'') :
    Changes ps touched t t'' :=
  ⟨fun hclear => h'.clear (h.clear hclear), Nat.le_trans h.clock h'.clock,
    fun q hq => (h'.frame q hq).trans (h.frame q hq)⟩

theorem mono (h : Changes ps touched t t') (hsub : ∀ q, touched q → other q) :
    Changes ps other t t' :=
  ⟨h.clear, h.clock, fun q hq => h.frame q fun htouched => hq (hsub q htouched)⟩

/-- Files keep their contents where nothing is changed. -/
theorem content? (h : Changes ps touched t t') (hq : ¬ touched q) :
    t'.content? q = t.content? q := by
  rw [FileTree.content?, FileTree.content?, h.frame q hq]

end Changes

section

variable {ps : List Path}

/-- Making directories changes no file. -/
theorem Opens.changes_of_forall (hp : ∀ r ∈ ps, ¬ r <+: p) (h : Opens t t' p) :
    Changes ps (fun _ => False) t t' := by
  refine ⟨fun hclear r hr => ⟨?_, fun q hq => ?_⟩, h.clock, fun q _ => h.file q⟩
  · rw [h.directory r (hp r hr)]
    exact (hclear r hr).place
  · rw [isFile_eq, h.file, ← isFile_eq]
    exact (hclear r hr).way q hq

theorem Opens.changes (hps : Apart ps) (hp : p ∈ ps) (h : Opens t t' p.dropLast) :
    Changes ps (fun _ => False) t t' :=
  h.changes_of_forall fun r hr => hps p hp r hr

/-- A change of the node at one path, to a file or to nothing. -/
theorem Changes.of_node {f? : Option File} (hps : Apart ps) (hp : p ∈ ps) (hclock : t.clock ≤ t'.clock)
    (hself : t'.node? p = f?.map .file) (hother : ∀ q, q ≠ p → t'.node? q = t.node? q) :
    Changes ps (· = p) t t' ∧ t'.file? p = f? := by
  have hfile : ∀ q, q ≠ p → t'.file? q = t.file? q := fun q hq => by
    rw [file?, file?, hother q hq]
  refine ⟨⟨fun hclear r hr => ⟨?_, fun q hq => ?_⟩, hclock, hfile⟩, ?_⟩
  · rw [isDirectory]
    by_cases h : r = p
    · rw [h, hself]
      cases f? <;> rfl
    · rw [hother r h]
      exact (hclear r hr).place
  · have hqp : q ≠ p := by
      rintro rfl
      exact hps r hr q hp hq
    rw [isFile_eq, hfile q hqp, ← isFile_eq]
    exact (hclear r hr).way q hq
  · rw [file?, hself]
    cases f? <;> rfl

/-- A file is put at a path at the present time. -/
theorem putContent_spec (hps : Apart ps) (hp : p ∈ ps) (hclear : t.Clear ps) (c : Content) :
    Changes ps (· = p) t (t.putContent p c) ∧
      (t.putContent p c).file? p = some ⟨c, t.clock⟩ := by
  have hne := (hclear p hp).ne_nil
  refine Changes.of_node hps hp (Nat.le_succ _) ?_ fun q hq => ?_
  · rw [putContent, node?_put hne, if_pos rfl]
    rfl
  · rw [putContent, node?_put hne, if_neg hq]

/-- Where the directory is there, a file can be written. -/
theorem Admits.write_eq (h : t.Admits p) (hdir : t.isDirectory p.dropLast = true) (c : Content) :
    t.write p c = .ok (t.putContent p c) := by
  have hnone : t.putError? p = none := by
    rw [putError?]
    cases hfile : t.file? p with
    | some f => rw [find_of_file? hfile]
    | none =>
      rw [h.find_of_none hfile]
      exact if_pos hdir
  rw [write, hnone]

/-- A file that is there can be removed. -/
theorem exists_remove (hps : Apart ps) (hp : p ∈ ps) {f : File} (hfile : t.file? p = some f)
    (hne : p ≠ []) :
    ∃ t', t.remove p = .ok t' ∧ Changes ps (· = p) t t' ∧ t'.file? p = none := by
  refine ⟨_, by rw [remove, find_of_file? hfile], ?_⟩
  have hlookup := fun q => lookup_filter_ne p q t.nodes
  refine Changes.of_node hps hp (Nat.le_refl _) ?_ fun q hq => ?_
  · cases p with
    | nil => exact absurd rfl hne
    | cons name p => exact (hlookup (name :: p)).trans (if_pos rfl)
  · cases q with
    | nil => rfl
    | cons name q => exact (hlookup (name :: q)).trans (if_neg hq)

/-- The time of a file that is there can be set. -/
theorem exists_setTime (hps : Apart ps) (hp : p ∈ ps) {f : File} (hfile : t.file? p = some f)
    (hne : p ≠ []) (time : Nat) :
    ∃ t', t.setTime p time = .ok t' ∧ Changes ps (· = p) t t' ∧
      t'.file? p = some ⟨f.content, time⟩ ∧ t'.clock = t.clock := by
  have hnode : ∀ q, node? ⟨putNode p (.file ⟨f.content, time⟩) t.nodes, t.clock⟩ q =
      if q = p then some (.file ⟨f.content, time⟩) else t.node? q :=
    fun q => node?_put hne (.file ⟨f.content, time⟩) q
  have hall : Changes ps (· = p) t ⟨putNode p (.file ⟨f.content, time⟩) t.nodes, t.clock⟩ ∧
      file? ⟨putNode p (.file ⟨f.content, time⟩) t.nodes, t.clock⟩ p = some ⟨f.content, time⟩ :=
    Changes.of_node hps hp (Nat.le_refl _) ((hnode p).trans (if_pos rfl)) fun q hq =>
      (hnode q).trans (if_neg hq)
  exact ⟨_, by rw [setTime, find_of_file? hfile], hall.1, hall.2, rfl⟩

end

/-- Making directories changes no file, and makes nothing but directories on the way. -/
theorem opens_of_makeDirs (h : t.makeDirs p = .ok t') : Opens t t' p := by
  by_cases hway : ∀ q, q <+: p → t.isFile q = false
  · obtain ⟨t'', ht'', hopens, -⟩ := exists_makeDirs hway
    rw [h] at ht''
    rw [Except.ok.inj ht'']
    exact hopens
  · have hsame : t' = t := by
      rw [makeDirs] at h
      cases hnode : t.node? p with
      | some node =>
        rw [find, hnode] at h
        cases node with
        | file f => exact absurd h (by simp)
        | directory time => exact (Except.ok.inj h).symm
      | none =>
        refine absurd (fun q hq => ?_) hway
        by_cases hqp : q = p
        · rw [hqp, isFile, hnode]
        · have hmem : q ∈ Path.starts p.dropLast := by
            obtain ⟨r, hr⟩ := hq
            have hne : r ≠ [] := by
              rintro rfl
              exact hqp (by simpa using hr)
            rw [Path.mem_starts, ← hr, List.dropLast_append_of_ne_nil hne]
            exact List.prefix_append q _
          rw [find, hnode] at h
          by_cases hany : (Path.starts p.dropLast).any t.isFile = true
          · simp only [hany] at h
            exact absurd h (by simp)
          · rw [Bool.not_eq_true, List.any_eq_false] at hany
            simpa using hany q hmem
    rw [hsame]
    exact ⟨fun _ => rfl, fun _ _ => rfl, Nat.le_refl _⟩

end FileTree

end TableSync
