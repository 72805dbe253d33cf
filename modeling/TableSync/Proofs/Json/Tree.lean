import TableSync.Proofs.Json.Tokens

/-!
# Building a tree from its tokens

The builder goes through the tokens of a tree with a stack of open containers, and puts the tree in
its place in the innermost one.  A state of the builder says what may come next, and the stack what
has come already; the tokens of a tree lead from a state in which a value may come to the one in
which the value has been put.

* `Json.depth` is how many containers stand inside one another.
* `buildAll_itemOrEnd` says that where an item or the end of a list may come, an item is built as a
  value is: a tree does not start with the token that ends a list (`exists_tokens_eq`).
* `buildAll_tokens` says that the tree of which the tokens are is built, if there are not too many
  open containers.  It goes by the recursion of `Json.tokens`, with what has been built of a list or
  an object in the stack, and for any stack that leaves room for the depth of the tree.
* `parse?_pretty` puts this together with the lexer.

The order of members is kept, and so are keys that are repeated; that they are not repeated is asked
for where records are read.
-/

set_option autoImplicit false

namespace TableSync.Json

mutual

/-- How many containers stand inside one another. -/
def depth : Json → Nat
  | .null => 0
  | .num _ => 0
  | .str _ => 0
  | .arr items => depthItems items + 1
  | .obj members => depthMembers members + 1
termination_by structural j => j

/-- How many containers stand inside one another in some items. -/
def depthItems : List Json → Nat
  | [] => 0
  | j :: js => max j.depth (depthItems js)
termination_by structural js => js

/-- How many containers stand inside one another in some members. -/
def depthMembers : List (String × Json) → Nat
  | [] => 0
  | (_, j) :: ms => max j.depth (depthMembers ms)
termination_by structural ms => ms

end

variable {st st' : BuildState} {t : Token}

theorem buildAll_cons (h : build st t = some st') (ts : List Token) :
    buildAll st (t :: ts) = buildAll st' ts := by
  rw [buildAll, h]
  rfl

/-- A tree starts with a token that starts a value. -/
theorem exists_tokens_eq (j : Json) : ∃ t ts, tokens j = t :: ts ∧ t ≠ .closeList := by
  cases j <;> exact ⟨_, _, rfl, Token.noConfusion⟩

/-- Where an item or the end of a list may come, an item is built as a value. -/
theorem buildAll_itemOrEnd (j : Json) (read : List Json) (fs : List Frame) (ts : List Token) :
    buildAll (.itemOrEnd, .items read :: fs) (tokens j ++ ts) =
      buildAll (.value, .items read :: fs) (tokens j ++ ts) := by
  obtain ⟨t, ts', htokens, ht⟩ := exists_tokens_eq j
  rw [htokens, List.cons_append, buildAll, buildAll]
  cases t <;> first
    | exact absurd rfl ht
    | rfl

theorem build_openList {fs : List Frame} (h : fs.length < maxDepth) :
    build (.value, fs) .openList = some (.itemOrEnd, .items [] :: fs) :=
  if_pos h

theorem build_openObject {fs : List Frame} (h : fs.length < maxDepth) :
    build (.value, fs) .openObject = some (.keyOrEnd, .members [] :: fs) :=
  if_pos h

mutual

/-- **A tree is built from its tokens**, and takes its place. -/
theorem buildAll_tokens : ∀ (j : Json) (fs : List Frame) (ts : List Token),
    j.depth + fs.length ≤ maxDepth →
      buildAll (.value, fs) (tokens j ++ ts) = (place j fs).bind fun st => buildAll st ts
  | .null, _, _, _ => rfl
  | .num _, _, _, _ => rfl
  | .str _, _, _, _ => rfl
  | .arr [], fs, ts, h => by
    have hroom : fs.length < maxDepth := by
      rw [depth, depthItems] at h
      omega
    exact buildAll_cons (build_openList hroom) (.closeList :: ts)
  | .arr (j :: js), fs, ts, h => by
    rw [depth] at h
    have hitems := buildAll_itemTokens (j :: js) [] fs ts (List.cons_ne_nil j js) (by omega)
    rw [itemTokens, List.append_assoc] at hitems
    rw [tokens, itemTokens, List.cons_append, List.cons_append, List.append_assoc,
      List.append_assoc, buildAll_cons (build_openList (by omega)), buildAll_itemOrEnd]
    exact hitems
  | .obj [], fs, ts, h => by
    have hroom : fs.length < maxDepth := by
      rw [depth, depthMembers] at h
      omega
    exact buildAll_cons (build_openObject hroom) (.closeObject :: ts)
  | .obj ((k, j) :: ms), fs, ts, h => by
    rw [depth] at h
    have hmembers := buildAll_memberTokens ((k, j) :: ms) [] fs ts (List.cons_ne_nil _ ms)
      (by omega)
    rw [tokens, List.cons_append, List.cons_append, List.append_assoc,
      buildAll_cons (build_openObject (by omega))]
    -- the first key is read in the same way, whether or not the end might come instead
    rw [memberTokens, List.cons_append, List.cons_append, buildAll] at hmembers ⊢
    exact hmembers

theorem buildAll_itemTokens : ∀ (js read : List Json) (fs : List Frame) (ts : List Token),
    js ≠ [] → depthItems js + fs.length + 1 ≤ maxDepth →
      buildAll (.value, .items read :: fs) (itemTokens js ++ .closeList :: ts) =
        (place (.arr (read.reverse ++ js)) fs).bind fun st => buildAll st ts
  | [], _, _, _, hne, _ => absurd rfl hne
  | [j], read, fs, ts, _, h => by
    rw [depthItems, depthItems] at h
    have hitem := buildAll_tokens j (.items read :: fs) (.closeList :: ts)
      (by rw [List.length_cons]; omega)
    rw [itemTokens, List.isEmpty_nil, if_pos rfl, List.append_nil, hitem, ← List.reverse_cons]
    rfl
  | j :: j' :: js, read, fs, ts, _, h => by
    rw [depthItems] at h
    have hitem := buildAll_tokens j (.items read :: fs)
      (.comma :: (itemTokens (j' :: js) ++ .closeList :: ts)) (by rw [List.length_cons]; omega)
    have hrest := buildAll_itemTokens (j' :: js) (j :: read) fs ts (List.cons_ne_nil j' js)
      (by omega)
    rw [itemTokens, List.isEmpty_cons, if_neg Bool.false_ne_true, List.append_assoc,
      List.cons_append, hitem]
    rw [List.reverse_cons, List.append_assoc, List.singleton_append] at hrest
    exact hrest

theorem buildAll_memberTokens : ∀ (ms read : List (String × Json)) (fs : List Frame)
    (ts : List Token), ms ≠ [] → depthMembers ms + fs.length + 1 ≤ maxDepth →
      buildAll (.key, .members read :: fs) (memberTokens ms ++ .closeObject :: ts) =
        (place (.obj (read.reverse ++ ms)) fs).bind fun st => buildAll st ts
  | [], _, _, _, hne, _ => absurd rfl hne
  | [(k, j)], read, fs, ts, _, h => by
    rw [depthMembers, depthMembers] at h
    have hvalue := buildAll_tokens j (.member read k :: fs) (.closeObject :: ts)
      (by rw [List.length_cons]; omega)
    rw [memberTokens, List.isEmpty_nil, if_pos rfl, List.append_nil, List.cons_append,
      List.cons_append]
    show buildAll (.value, .member read k :: fs) _ = _
    rw [hvalue, ← List.reverse_cons]
    rfl
  | (k, j) :: m :: ms, read, fs, ts, _, h => by
    rw [depthMembers] at h
    have hvalue := buildAll_tokens j (.member read k :: fs)
      (.comma :: (memberTokens (m :: ms) ++ .closeObject :: ts))
      (by rw [List.length_cons]; omega)
    have hrest := buildAll_memberTokens (m :: ms) ((k, j) :: read) fs ts (List.cons_ne_nil m ms)
      (by omega)
    rw [memberTokens, List.isEmpty_cons, if_neg Bool.false_ne_true]
    simp only [List.cons_append, List.append_assoc]
    show buildAll (.value, .member read k :: fs) _ = _
    rw [List.reverse_cons, List.append_assoc, List.singleton_append] at hrest
    rw [hvalue]
    exact hrest

end

/-- **A printed tree is read back**, if its integers have 64 bits and its containers are not nested
too deep. -/
theorem parse?_pretty {j : Json} (hj : j.AreInt64) (hdepth : j.depth ≤ maxDepth) :
    parse? (pretty 0 j ++ ['\n']) = some j := by
  have hbuild := buildAll_tokens j [] [] hdepth
  rw [List.append_nil] at hbuild
  rw [parse?, lex_document hj, Option.bind_some, ofTokens?, hbuild]
  rfl

end TableSync.Json
