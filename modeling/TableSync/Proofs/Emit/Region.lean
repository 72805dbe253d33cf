import TableSync.Proofs.Emit.Splice

/-!
# Replacing a region

Which lines a splice keeps, and which it replaces, said by the numbers of the lines.  A splice
passes some anchors, each in the first line that has it after the line of the one before, looks for
the end of the region from there on, and puts its lines in between.

* `Marker.IsFirst` is the first line from a number on that meets a condition; `Located` are
  conditions met in turn, and `IsMissing` is the first of them that is not met.  The numbers make it
  possible to say of one text where the anchors of another one are: only the lines up to the last of
  them matter (`Located.congr`).
* `located_or_isMissing` says that there is no third case, and `spliceRegion_of_located` and
  `spliceRegion_of_isMissing` what the outcome of a splice is in each.
* `spliceRegion_eq_ok_iff` and `spliceRegion_eq_error_iff` read the cases off the outcome.
* `spliceRegion_spliceRegion` says that a second splice finds the place of the first one again, if
  no line that was put in ends the region: the anchors stand before it, where nothing has changed.
* `spliceRegion_outcomes` puts all of this together.
-/

set_option autoImplicit false

namespace TableSync

variable {m stop : Marker} {ms anchors : List Marker} {ls ls' : List Text} {i j k : Nat}

/-! ## The first line that meets a condition -/

namespace Marker

/-- From line `i` on, line `j` is the first one that meets the condition. -/
def IsFirst (m : Marker) (ls : List Text) (i j : Nat) : Prop :=
  i ≤ j ∧ ls[j]?.any m.accepts = true ∧ ∀ k < j, i ≤ k → ls[k]?.any m.accepts = false

instance (m : Marker) (ls : List Text) (i j : Nat) : Decidable (m.IsFirst ls i j) :=
  inferInstanceAs (Decidable (_ ∧ _ ∧ _))

theorem IsFirst.unique (h : m.IsFirst ls i j) (h' : m.IsFirst ls i k) : j = k := by
  obtain ⟨hij, hj, hfirst⟩ := h
  obtain ⟨hik, hk, hfirst'⟩ := h'
  rcases Nat.lt_trichotomy j k with hlt | heq | hgt
  · rw [hfirst' j hlt hij] at hj
    cases hj
  · exact heq
  · rw [hfirst k hgt hik] at hk
    cases hk

theorem IsFirst.exists_line (h : m.IsFirst ls i j) :
    ∃ line, ls[j]? = some line ∧ m.accepts line = true := by
  obtain ⟨-, hj, -⟩ := h
  cases hline : ls[j]? with
  | none =>
    rw [hline] at hj
    cases hj
  | some line =>
    rw [hline] at hj
    exact ⟨line, rfl, hj⟩

/-- It is the first one from any line between on. -/
theorem IsFirst.mono (h : m.IsFirst ls i j) (hik : i ≤ k) (hkj : k ≤ j) : m.IsFirst ls k j :=
  ⟨hkj, h.2.1, fun n hn hkn => h.2.2 n hn (Nat.le_trans hik hkn)⟩

/-- It is the first one from a line before on, if that line does not meet the condition. -/
theorem IsFirst.of_succ (h : m.IsFirst ls (i + 1) j) (hi : ls[i]?.any m.accepts = false) :
    m.IsFirst ls i j := by
  refine ⟨Nat.le_of_succ_le h.1, h.2.1, fun k hk hik => ?_⟩
  rcases Nat.eq_or_lt_of_le hik with rfl | hlt
  · exact hi
  · exact h.2.2 k hk hlt

/-- Only the lines up to the first one matter. -/
theorem IsFirst.congr (h : m.IsFirst ls i j) (hls : ∀ k ≤ j, ls'[k]? = ls[k]?) :
    m.IsFirst ls' i j := by
  obtain ⟨hij, hj, hfirst⟩ := h
  refine ⟨hij, ?_, fun k hk hik => ?_⟩
  · rw [hls j (Nat.le_refl j)]
    exact hj
  · rw [hls k (Nat.le_of_lt hk)]
    exact hfirst k hk hik

/-- The lines from a number on, cut at the first one that meets the condition. -/
theorem IsFirst.exists_split? (h : m.IsFirst ls i j) :
    ∃ before hit, m.split? (ls.drop i) = some (before, hit, ls.drop (j + 1)) ∧
      ls.take i ++ before = ls.take j ∧ ls[j]? = some hit := by
  obtain ⟨hit, hline, haccepts⟩ := h.exists_line
  obtain ⟨hij, -, hfirst⟩ := h
  obtain ⟨hj, rfl⟩ := List.getElem?_eq_some_iff.1 hline
  have htake : ls.take i ++ (ls.drop i).take (j - i) = ls.take j := by
    rw [← List.take_add, Nat.add_sub_cancel' hij]
  have hdrop : ls.drop i = (ls.drop i).take (j - i) ++ ls[j] :: ls.drop (j + 1) :=
    calc ls.drop i = (ls.drop i).take (j - i) ++ (ls.drop i).drop (j - i) :=
          (List.take_append_drop _ _).symm
      _ = (ls.drop i).take (j - i) ++ ls[j] :: ls.drop (j + 1) := by
          rw [List.drop_drop, Nat.add_sub_cancel' hij, List.drop_eq_getElem_cons hj]
  refine ⟨_, _, split?_eq_some_iff.2 ⟨hdrop, haccepts, fun l hl => ?_⟩, htake, hline⟩
  obtain ⟨k, hk, rfl⟩ := List.getElem_of_mem hl
  rw [List.length_take] at hk
  have hmiss := hfirst (i + k) (by omega) (Nat.le_add_right i k)
  rw [List.getElem?_eq_getElem (by omega), Option.any_some] at hmiss
  rw [List.getElem_take, List.getElem_drop]
  exact hmiss

/-- What is found in the lines from a number on is the first one that meets the condition. -/
theorem isFirst_of_split? {before after : List Text} {hit : Text}
    (h : m.split? (ls.drop i) = some (before, hit, after)) :
    m.IsFirst ls i (i + before.length) := by
  obtain ⟨hdrop, hhit, hbefore⟩ := split?_eq_some_iff.1 h
  have hline : ∀ k, ls[i + k]? = (before ++ hit :: after)[k]? := by
    intro k
    rw [← hdrop, List.getElem?_drop]
  refine ⟨Nat.le_add_right i _, ?_, fun k hk hik => ?_⟩
  · rw [hline, List.getElem?_append_right (Nat.le_refl _), Nat.sub_self, List.getElem?_cons_zero]
    exact hhit
  · obtain ⟨n, rfl⟩ := Nat.exists_eq_add_of_le hik
    have hn : n < before.length := by omega
    rw [hline, List.getElem?_append_left hn, List.getElem?_eq_getElem hn]
    exact hbefore _ (List.getElem_mem hn)

/-- Behind some lines and others that do not meet the condition. -/
theorem isFirst_append {new : List Text} {hit : Text} (kept rest : List Text)
    (hnew : ∀ l ∈ new, m.accepts l = false) (hhit : m.accepts hit = true) :
    m.IsFirst (kept ++ (new ++ hit :: rest)) kept.length (kept.length + new.length) := by
  have hsplit : m.split? (List.drop kept.length (kept ++ (new ++ hit :: rest))) =
      some (new, hit, rest) := by
    rw [List.drop_left]
    exact split?_eq_some_iff.2 ⟨rfl, hhit, hnew⟩
  exact isFirst_of_split? hsplit

/-- If no line from a number on meets the condition, none is found. -/
theorem split?_eq_none (h : ∀ j, ¬ m.IsFirst ls i j) : m.split? (ls.drop i) = none := by
  cases hsplit : m.split? (ls.drop i) with
  | none => rfl
  | some found => exact absurd (isFirst_of_split? hsplit) (h _)

end Marker

/-! ## Conditions met in turn

Both relations follow the list of conditions, as the search does.  The line after a hit is where the
next search begins, so one line never meets two conditions. -/

/-- From line `i` on, each condition is met by the first line that can after the line before it, and
`k` is the number of the line after the last of them. -/
inductive Located (ls : List Text) : Nat → List Marker → Nat → Prop
  | nil (i : Nat) : Located ls i [] i
  | cons {m : Marker} {ms : List Marker} {i j k : Nat} (hit : m.IsFirst ls i j)
      (rest : Located ls (j + 1) ms k) : Located ls i (m :: ms) k

/-- From line `i` on, conditions are met in turn up to `m`, which no line after them meets. -/
inductive IsMissing (ls : List Text) (m : Marker) : Nat → List Marker → Prop
  | here {ms : List Marker} {i : Nat} (h : ∀ j, ¬ m.IsFirst ls i j) : IsMissing ls m i (m :: ms)
  | later {m' : Marker} {ms : List Marker} {i j : Nat} (hit : m'.IsFirst ls i j)
      (rest : IsMissing ls m (j + 1) ms) : IsMissing ls m i (m' :: ms)

theorem Located.le (h : Located ls i ms k) : i ≤ k := by
  induction h with
  | nil => exact Nat.le_refl _
  | cons hit rest ih => exact Nat.le_trans hit.1 (Nat.le_of_succ_le ih)

/-- Only the lines up to the last condition matter. -/
theorem Located.congr (h : Located ls i ms k) (hls : ∀ n < k, ls'[n]? = ls[n]?) :
    Located ls' i ms k := by
  induction h with
  | nil i => exact .nil i
  | cons hit rest ih =>
    exact .cons (hit.congr fun n hn => hls n (Nat.lt_of_le_of_lt hn rest.le)) (ih hls)

/-- Conditions are met in turn, or there is a first one that is not met. -/
theorem located_or_isMissing (ls : List Text) (i : Nat) (ms : List Marker) :
    (∃ k, Located ls i ms k) ∨ ∃ m, IsMissing ls m i ms := by
  induction ms generalizing i with
  | nil => exact .inl ⟨i, .nil i⟩
  | cons m ms ih =>
    by_cases hm : ∃ j, m.IsFirst ls i j
    · obtain ⟨j, hj⟩ := hm
      rcases ih (j + 1) with ⟨k, hk⟩ | ⟨m', hm'⟩
      · exact .inl ⟨k, .cons hj hk⟩
      · exact .inr ⟨m', .later hj hm'⟩
    · exact .inr ⟨m, .here (not_exists.1 hm)⟩

theorem Located.exists_of_concat (h : Located ls i (ms ++ [m]) k) :
    ∃ start j, Located ls i ms start ∧ m.IsFirst ls start j := by
  induction ms generalizing i with
  | nil =>
    cases h with
    | cons hit _ => exact ⟨i, _, .nil i, hit⟩
  | cons m' ms ih =>
    cases h with
    | cons hit rest =>
      obtain ⟨start, j, hstart, hj⟩ := ih rest
      exact ⟨start, j, .cons hit hstart, hj⟩

/-- The last of some conditions is missing if those before it are met. -/
theorem IsMissing.of_concat (h : IsMissing ls m i (ms ++ [stop])) :
    IsMissing ls m i ms ∨ ∃ k, Located ls i ms k ∧ m = stop ∧ ∀ j, ¬ stop.IsFirst ls k j := by
  induction ms generalizing i with
  | nil =>
    cases h with
    | here h => exact .inr ⟨i, .nil i, rfl, h⟩
    | later _ rest => cases rest
  | cons m' ms ih =>
    cases h with
    | here h => exact .inl (.here h)
    | later hit rest =>
      rcases ih rest with hmissing | ⟨k, hk, rfl, hstop⟩
      · exact .inl (.later hit hmissing)
      · exact .inr ⟨k, .cons hit hk, rfl, hstop⟩

/-! ## The outcomes of a splice -/

variable {file : String} {text out : Text} {body : List Text}

theorem passAnchors_of_located (h : Located ls i ms k) (file : String) :
    ∃ passed, passAnchors file ms (ls.drop i) = .ok (passed, ls.drop k) ∧
      ls.take i ++ passed = ls.take k := by
  induction h with
  | nil i => exact ⟨[], rfl, List.append_nil _⟩
  | @cons m ms i j k hit rest ih =>
    obtain ⟨before, line, hsplit, hbefore, hline⟩ := hit.exists_split?
    obtain ⟨passed, hpassed, htake⟩ := ih
    refine ⟨before ++ line :: passed, ?_, ?_⟩
    · simp only [passAnchors, hsplit, hpassed, bind, Except.bind, pure, Except.pure]
    · obtain ⟨hj, rfl⟩ := List.getElem?_eq_some_iff.1 hline
      rw [← htake, ← List.append_assoc, hbefore, ← List.take_append_getElem hj, List.append_assoc,
        List.singleton_append]

theorem passAnchors_of_isMissing (h : IsMissing ls m i ms) (file : String) :
    passAnchors file ms (ls.drop i) = m.notFound file := by
  induction h with
  | here h => rw [passAnchors, Marker.split?_eq_none h]
  | later hit rest ih =>
    obtain ⟨before, line, hsplit, -, -⟩ := hit.exists_split?
    simp only [passAnchors, hsplit, ih, Marker.notFound, fail, bind, Except.bind]

/-- **Lines take the place of a region.** -/
theorem spliceRegion_of_located (hne : anchors ≠ []) {start s : Nat}
    (hanchors : Located (pieces text) 0 anchors start) (hstop : stop.IsFirst (pieces text) start s)
    (file : String) (body : List Text) :
    spliceRegion text file anchors stop body =
      .ok (((pieces text).take start).flatten ++ unlines body ++ ((pieces text).drop s).flatten) := by
  obtain ⟨passed, hpassed, htake⟩ := passAnchors_of_located hanchors file
  obtain ⟨region, hit, hsplit, -, hline⟩ := hstop.exists_split?
  obtain ⟨hs, rfl⟩ := List.getElem?_eq_some_iff.1 hline
  rw [List.take_zero, List.nil_append] at htake
  rw [List.drop_zero] at hpassed
  rw [← htake, List.drop_eq_getElem_cons hs]
  simp [spliceRegion, hpassed, hsplit, hne, bind, Except.bind, pure, Except.pure]

/-- **A splice fails for the first condition that is not met.** -/
theorem spliceRegion_of_isMissing (h : IsMissing (pieces text) m 0 (anchors ++ [stop]))
    (file : String) (body : List Text) :
    spliceRegion text file anchors stop body = m.notFound file := by
  rcases h.of_concat with hanchors | ⟨start, hanchors, rfl, hstop⟩
  · have hfail := passAnchors_of_isMissing hanchors file
    rw [List.drop_zero] at hfail
    simp only [spliceRegion, hfail, Marker.notFound, fail, bind, Except.bind]
  · obtain ⟨passed, hpassed, -⟩ := passAnchors_of_located hanchors file
    rw [List.drop_zero] at hpassed
    simp only [spliceRegion, hpassed, Marker.split?_eq_none hstop, bind, Except.bind]

/-- A splice has succeeded where its conditions are met. -/
theorem exists_located_of_spliceRegion (h : spliceRegion text file anchors stop body = .ok out) :
    ∃ start s, Located (pieces text) 0 anchors start ∧ stop.IsFirst (pieces text) start s := by
  rcases located_or_isMissing (pieces text) 0 (anchors ++ [stop]) with ⟨k, hk⟩ | ⟨m, hm⟩
  · exact hk.exists_of_concat
  · rw [spliceRegion_of_isMissing hm] at h
    cases h

/-- A successful splice, by the numbers of the lines. -/
theorem spliceRegion_eq_ok_iff (hne : anchors ≠ []) :
    spliceRegion text file anchors stop body = .ok out ↔
      ∃ start s, Located (pieces text) 0 anchors start ∧ stop.IsFirst (pieces text) start s ∧
        out = ((pieces text).take start).flatten ++ unlines body
          ++ ((pieces text).drop s).flatten := by
  constructor
  · intro h
    obtain ⟨start, s, hanchors, hstop⟩ := exists_located_of_spliceRegion h
    rw [spliceRegion_of_located hne hanchors hstop] at h
    exact ⟨start, s, hanchors, hstop, (Except.ok.inj h).symm⟩
  · rintro ⟨start, s, hanchors, hstop, rfl⟩
    exact spliceRegion_of_located hne hanchors hstop file body

/-- A failed splice, by the condition that is not met. -/
theorem spliceRegion_eq_error_iff (hne : anchors ≠ []) {e : Failure} :
    spliceRegion text file anchors stop body = .error e ↔
      ∃ m, IsMissing (pieces text) m 0 (anchors ++ [stop]) ∧
        e = ⟨.markerNotFound file (String.ofList m.text), []⟩ := by
  constructor
  · intro h
    rcases located_or_isMissing (pieces text) 0 (anchors ++ [stop]) with ⟨k, hk⟩ | ⟨m, hm⟩
    · obtain ⟨start, s, hanchors, hstop⟩ := hk.exists_of_concat
      rw [spliceRegion_of_located hne hanchors hstop] at h
      cases h
    · rw [spliceRegion_of_isMissing hm] at h
      exact ⟨m, hm, (Except.error.inj h).symm⟩
  · rintro ⟨m, hm, rfl⟩
    exact spliceRegion_of_isMissing hm file body

/-! ## Splicing twice

The lines that are kept in front end in line feeds, as the end of the region is in a line behind
them, so the new lines begin lines of their own and the numbers of the anchors are the same. -/

/-- The pieces of a spliced text: those that were kept, and between them the new lines. -/
theorem pieces_spliced {kept rest : List Text} (hkept : ∀ p ∈ kept, IsEnded p)
    (hbody : ∀ line ∈ body, '\n' ∉ line) (hrest : pieces rest.flatten = rest) :
    pieces (kept.flatten ++ unlines body ++ rest.flatten) =
      kept ++ (body.map (· ++ ['\n']) ++ rest) := by
  have hnew : ∀ p ∈ body.map (· ++ ['\n']), IsEnded p := by
    intro p hp
    obtain ⟨line, hline, rfl⟩ := List.mem_map.1 hp
    exact ⟨line, hbody line hline, rfl⟩
  rw [List.append_assoc, pieces_flatten_append hkept, unlines, pieces_flatten_append hnew, hrest]

theorem pieces_drop (text : Text) (n : Nat) :
    pieces ((pieces text).drop n).flatten = (pieces text).drop n :=
  (pieces_eq_append (List.take_append_drop n (pieces text)).symm).1

/-- All pieces but the last one have their line feeds. -/
theorem isEnded_of_mem_take {n : Nat} (hn : n < (pieces text).length) :
    ∀ p ∈ (pieces text).take n, IsEnded p :=
  (pieces_eq_append (List.take_append_drop n (pieces text)).symm).2 fun hnil => by
    rw [List.drop_eq_nil_iff] at hnil
    omega

/-- **A second splice finds the place of the first one again**, if the first one put in no line that
ends the region. -/
theorem spliceRegion_spliceRegion (hne : anchors ≠ [])
    (h : spliceRegion text file anchors stop body = .ok out)
    (hbody : ∀ line ∈ body, '\n' ∉ line ∧ stop.accepts (line ++ ['\n']) = false)
    (body' : List Text) :
    spliceRegion out file anchors stop body' = spliceRegion text file anchors stop body' := by
  obtain ⟨start, s, hanchors, hstop, hout⟩ := (spliceRegion_eq_ok_iff hne).1 h
  obtain ⟨line, hline, haccepts⟩ := hstop.exists_line
  obtain ⟨hs, rfl⟩ := List.getElem?_eq_some_iff.1 hline
  have hstart : ((pieces text).take start).length = start := by
    rw [List.length_take]
    exact Nat.min_eq_left (Nat.le_trans hstop.1 (Nat.le_of_lt hs))
  have hpieces := pieces_spliced (isEnded_of_mem_take (Nat.lt_of_le_of_lt hstop.1 hs))
    (fun line hline => (hbody line hline).1) (pieces_drop text s)
  rw [← hout, List.drop_eq_getElem_cons hs] at hpieces
  -- the anchors stand where they stood, and the end stands behind the new lines
  have hanchors' : Located (pieces out) 0 anchors start := by
    refine hanchors.congr fun n hn => ?_
    rw [hpieces, List.getElem?_append_left (by omega), List.getElem?_take_of_lt hn]
  have hstop' : stop.IsFirst (pieces out) start (start + body.length) := by
    have hnew : ∀ l ∈ body.map (· ++ ['\n']), stop.accepts l = false := by
      intro l hl
      obtain ⟨line, hline, rfl⟩ := List.mem_map.1 hl
      exact (hbody line hline).2
    have hfirst := Marker.isFirst_append ((pieces text).take start) ((pieces text).drop (s + 1))
      hnew haccepts
    rwa [← hpieces, hstart, List.length_map] at hfirst
  have htake : (pieces out).take start = (pieces text).take start := by
    rw [hpieces, List.take_left' hstart]
  have hdrop : (pieces out).drop (start + body.length) = (pieces text).drop s := by
    rw [hpieces, ← List.append_assoc, List.drop_left' (by rw [List.length_append, hstart,
      List.length_map]), List.drop_eq_getElem_cons hs]
  rw [spliceRegion_of_located hne hanchors hstop, spliceRegion_of_located hne hanchors' hstop',
    htake, hdrop]

/-! ## The outcomes together -/

/-- **A splice is the replacement of a region.**  It succeeds where the anchors and the end are met
in turn, and keeps the lines up to the last anchor and from the end on as they are; otherwise it
fails for the first of these conditions that is not met; and what it has put in can be replaced by a
further splice, if no line of it meets the end. -/
theorem spliceRegion_outcomes (hne : anchors ≠ []) (text : Text) (file : String) (stop : Marker)
    (body : List Text) :
    (∀ out, spliceRegion text file anchors stop body = .ok out ↔
      ∃ start s, Located (pieces text) 0 anchors start ∧ stop.IsFirst (pieces text) start s ∧
        out = ((pieces text).take start).flatten ++ unlines body
          ++ ((pieces text).drop s).flatten) ∧
    (∀ e, spliceRegion text file anchors stop body = .error e ↔
      ∃ m, IsMissing (pieces text) m 0 (anchors ++ [stop]) ∧
        e = ⟨.markerNotFound file (String.ofList m.text), []⟩) ∧
    ((∀ line ∈ body, '\n' ∉ line ∧ stop.accepts (line ++ ['\n']) = false) →
      ∀ out, spliceRegion text file anchors stop body = .ok out →
        ∀ body', spliceRegion out file anchors stop body' =
          spliceRegion text file anchors stop body') :=
  ⟨fun _ => spliceRegion_eq_ok_iff hne, fun _ => spliceRegion_eq_error_iff hne,
    fun hbody _ h body' => spliceRegion_spliceRegion hne h hbody body'⟩

/-- A text with both line ends and without a last line feed, in which the marks come twice. -/
def regionSample : Text := "\x7d\r\nmark\r\n\x7b\r\n\x7d old\n\x7b\nmark \x7d".toList

/-- The anchors of an empty region in it. -/
def regionAnchors : List Marker := [.contains "mark".toList, .startsWith ['{']]

/-- Lines for the region. -/
def regionLines : List Text := ["new".toList, []]

theorem spliceRegion_outcomes_sample :
    regionAnchors ≠ [] ∧
    (∀ line ∈ regionLines,
      '\n' ∉ line ∧ (Marker.contains ['}']).accepts (line ++ ['\n']) = false) ∧
    ∃ out, spliceRegion regionSample "f.c" regionAnchors (.contains ['}']) regionLines = .ok out ∧
      out = "\x7d\r\nmark\r\n\x7b\r\nnew\n\n\x7d old\n\x7b\nmark \x7d".toList ∧
      ∀ body', spliceRegion out "f.c" regionAnchors (.contains ['}']) body' =
        spliceRegion regionSample "f.c" regionAnchors (.contains ['}']) body' := by
  have hne : regionAnchors ≠ [] := by decide
  have hbody : ∀ line ∈ regionLines,
      '\n' ∉ line ∧ (Marker.contains ['}']).accepts (line ++ ['\n']) = false := by decide
  obtain ⟨hok, -, htwice⟩ :=
    spliceRegion_outcomes hne regionSample "f.c" (.contains ['}']) regionLines
  have hanchors : Located (pieces regionSample) 0 regionAnchors 3 :=
    .cons (j := 1) (by decide) (.cons (j := 2) (by decide) (.nil 3))
  have hout := (hok _).2 ⟨3, 3, hanchors, by decide, rfl⟩
  exact ⟨hne, hbody, _, hout, by decide, htwice hbody _ hout⟩

end TableSync
