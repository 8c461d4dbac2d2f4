import QueryFilter.Proofs.Query.Bracket
import QueryFilter.Proofs.Text.Boundary

/-!
# The grammar of keys

A raw key is of the form `head[s1]...[sn]`, or it is one segment as a whole.  `Bracketed` states the
form, and `parseKey_grammar` that keys are read by it.

The octets of a key may as well be scanned from bracket to bracket, with slices at the offsets where
brackets are found (`scanKey`).  No slice falls into a character, and a key has fewer segments than
octets, so that the scan comes to its end and finds the segments that are read (`scanKey_encode`).
-/

namespace QueryFilter.Query

open Text

/-! ### The grammar of keys -/

/-- A raw key is of the form `head[s1]...[sn]`, with at least one segment in brackets: the head is
not empty and has no opening bracket in it, and no segment has a closing one. -/
structure Bracketed (raw head : List Char) (segments : List (List Char)) : Prop where
  raw_eq : raw = head ++ bracketChars segments
  head_ne_nil : head ≠ []
  head_open : '[' ∉ head
  segments_ne_nil : segments ≠ []
  segments_close : ∀ segment ∈ segments, ']' ∉ segment

/-- What is read inside a bracket is a segment, its closing bracket, and further brackets. -/
theorem exists_of_insideBracket? {cs : List Char} {segments : List (List Char)}
    (h : insideBracket? cs = some segments) : ∃ segment rest more,
      segments = segment :: more ∧ cs = segment ++ ']' :: rest ∧ ']' ∉ segment ∧
        bracketed? rest = some more := by
  induction cs generalizing segments with
  | nil => exact absurd h (by simp [insideBracket?])
  | cons c cs ih =>
    by_cases hc : c = ']'
    · subst hc
      rw [insideBracket?] at h
      obtain ⟨more, hmore, rfl⟩ := Option.map_eq_some_iff.1 h
      exact ⟨[], cs, more, rfl, rfl, List.not_mem_nil, hmore⟩
    · rw [insideBracket?] at h
      · cases hinside : insideBracket? cs with
        | none => simp [hinside] at h
        | some inside =>
          obtain ⟨segment, rest, more, rfl, rfl, hclose, hmore⟩ := ih hinside
          simp only [hinside, Option.some.injEq] at h
          refine ⟨c :: segment, rest, more, h.symm, rfl, ?_, hmore⟩
          rw [List.mem_cons, not_or]
          exact ⟨Ne.symm hc, hclose⟩
      · exact fun heq => hc heq

/-- A text is segments in brackets in at most one way. -/
theorem bracketed?_eq_some_iff {cs : List Char} {segments : List (List Char)} :
    bracketed? cs = some segments ↔
      cs = bracketChars segments ∧ ∀ segment ∈ segments, ']' ∉ segment := by
  constructor
  · intro h
    induction hlength : cs.length using Nat.strongRecOn generalizing cs segments with
    | ind length ih =>
      cases cs with
      | nil =>
        rw [bracketed?, Option.some.injEq] at h
        subst h
        exact ⟨rfl, fun _ hs => absurd hs List.not_mem_nil⟩
      | cons c cs =>
        by_cases hc : c = '['
        · subst hc
          rw [bracketed?] at h
          obtain ⟨segment, rest, more, rfl, rfl, hclose, hmore⟩ := exists_of_insideBracket? h
          have hshorter : rest.length < length := by
            rw [← hlength, List.length_cons, List.length_append, List.length_cons]
            omega
          obtain ⟨hrest, hall⟩ := ih rest.length hshorter hmore rfl
          refine ⟨by rw [bracketChars_cons, ← hrest], fun s hs => ?_⟩
          rcases List.mem_cons.1 hs with rfl | hs
          · exact hclose
          · exact hall s hs
        · rw [bracketed?] at h
          · exact absurd h (by simp)
          · exact fun heq => hc heq
  · rintro ⟨rfl, hclose⟩
    exact bracketed?_bracketChars hclose

/-- The segments of a raw key, if it is of the form of keys. -/
def keyParts? (raw : List Char) : Option (List (List Char)) :=
  match cutAt '[' raw with
  | none => none
  | some (head, after) =>
    if head.isEmpty then none else (bracketed? ('[' :: after)).map (head :: ·)

/-- A key is read segment by segment, or else as a whole. -/
theorem parseKey_eq (raw : List Char) :
    parseKey raw = ((keyParts? raw).map (List.map decode)).getD [decode raw] := by
  unfold parseKey keyParts?
  cases hcut : cutAt '[' raw with
  | none =>
    have hnone : raw.dropWhile (· ≠ '[') = [] :=
      List.dropWhile_eq_nil_iff.2 fun c hc =>
        decide_eq_true fun heq => cutAt_eq_none.1 hcut (heq ▸ hc)
    simp only [hnone, List.isEmpty_nil, Bool.or_true, if_true]
    rfl
  | some parts =>
    obtain ⟨head, after⟩ := parts
    obtain ⟨rfl, hopen⟩ := cutAt_eq_some hcut
    have hnot : ∀ c ∈ head, decide (c ≠ '[') = true :=
      fun c hc => decide_eq_true fun heq => hopen (heq ▸ hc)
    rw [List.takeWhile_append_of_pos hnot, List.dropWhile_append_of_pos hnot,
      List.takeWhile_cons_of_neg (by decide), List.dropWhile_cons_of_neg (by decide),
      List.append_nil]
    cases head with
    | nil => rfl
    | cons c head => cases hread : bracketed? ('[' :: after) <;> simp [hread]

/-- A raw key has these segments if and only if it is of the form of keys with them. -/
theorem keyParts?_eq_some_iff {raw head : List Char} {segments : List (List Char)} :
    keyParts? raw = some (head :: segments) ↔ Bracketed raw head segments := by
  constructor
  · intro h
    unfold keyParts? at h
    split at h
    · exact absurd h (by simp)
    · rename_i first after hcut
      obtain ⟨hraw, hopen⟩ := cutAt_eq_some hcut
      rw [Option.ite_none_left_eq_some, Option.map_eq_some_iff] at h
      obtain ⟨hne, inside, hinside, heq⟩ := h
      obtain ⟨rfl, rfl⟩ := List.cons.inj heq
      obtain ⟨hrest, hclose⟩ := bracketed?_eq_some_iff.1 hinside
      refine ⟨by rw [hraw, hrest], fun hnil => hne (by rw [hnil]; rfl), hopen, ?_, hclose⟩
      rintro rfl
      exact absurd hrest (List.cons_ne_nil _ _)
  · rintro ⟨rfl, hne, hopen, hsegments, hclose⟩
    obtain ⟨segment, segments, rfl⟩ := List.exists_cons_of_ne_nil hsegments
    have hread := bracketed?_bracketChars hclose
    rw [bracketChars_cons] at hread ⊢
    rw [keyParts?, cutAt_append hopen]
    simp only [List.isEmpty_eq_false_iff.2 hne, Bool.false_eq_true, if_false, hread,
      Option.map_some]

/-- A raw key without segments is of another form. -/
theorem keyParts?_eq_none_iff {raw : List Char} :
    keyParts? raw = none ↔ ¬ ∃ head segments, Bracketed raw head segments := by
  constructor
  · rintro hnone ⟨head, segments, h⟩
    rw [keyParts?_eq_some_iff.2 h] at hnone
    exact absurd hnone (by simp)
  · intro hform
    refine Option.eq_none_iff_forall_ne_some.2 fun parts hsome => hform ?_
    have hcons : ∃ head segments, parts = head :: segments := by
      unfold keyParts? at hsome
      split at hsome
      · exact absurd hsome (by simp)
      · rw [Option.ite_none_left_eq_some, Option.map_eq_some_iff] at hsome
        obtain ⟨-, segments, -, rfl⟩ := hsome
        exact ⟨_, segments, rfl⟩
    obtain ⟨head, segments, rfl⟩ := hcons
    exact ⟨head, segments, keyParts?_eq_some_iff.1 hsome⟩

/-- A raw key is of the form of keys in one way at most. -/
theorem Bracketed.unique {raw head other : List Char} {segments more : List (List Char)}
    (h : Bracketed raw head segments) (h' : Bracketed raw other more) :
    head = other ∧ segments = more := by
  have hparts := (keyParts?_eq_some_iff.2 h).symm.trans (keyParts?_eq_some_iff.2 h')
  exact List.cons.inj (Option.some.inj hparts)

/-- A raw key of the form of keys is read as its decoded segments. -/
theorem Bracketed.parseKey {raw head : List Char} {segments : List (List Char)}
    (h : Bracketed raw head segments) : parseKey raw = decode head :: segments.map decode := by
  rw [parseKey_eq, keyParts?_eq_some_iff.2 h]
  rfl

/-- A raw key of another form is read as one decoded segment. -/
theorem parseKey_of_not_bracketed {raw : List Char}
    (h : ¬ ∃ head segments, Bracketed raw head segments) : parseKey raw = [decode raw] := by
  rw [parseKey_eq, keyParts?_eq_none_iff.2 h]
  rfl

/-! ### Scanning octets -/

/-- Why a scan fails. -/
inductive ScanFailure where
  /-- A slice begins or ends inside a character. -/
  | insideCharacter
  /-- There are more rounds to go than were allowed. -/
  | rounds
  deriving DecidableEq, Repr

/-- The octets before an offset and those from it on. -/
def sliceAt (octets : List Nat) (offset : Nat) :
    Except ScanFailure (List Nat × List Nat) :=
  if Utf8.isBoundary octets offset then .ok (octets.take offset, octets.drop offset)
  else .error .insideCharacter

/-- Scans segments in brackets, one in each round, up to the end of the octets; answers none if they
are of another form. -/
def scanSegments : Nat → List Nat → Except ScanFailure (Option (List (List Nat)))
  | _, [] => .ok (some [])
  | 0, _ :: _ => .error .rounds
  | rounds + 1, first :: inner =>
    if first ≠ '['.toNat then .ok none
    else match inner.findIdx? (· == ']'.toNat) with
      | none => .ok none
      | some close => do
        let segment ← sliceAt inner close
        let rest ← sliceAt inner (close + 1)
        let segments ← scanSegments rounds rest.2
        return segments.map (segment.1 :: ·)

/-- Scans the octets of a key for its segments; answers none if it is of another form. -/
def scanKey (rounds : Nat) (raw : List Nat) : Except ScanFailure (Option (List (List Nat))) :=
  match raw.findIdx? (· == '['.toNat) with
  | none => .ok none
  | some start =>
    if start = 0 then .ok none
    else do
      let parts ← sliceAt raw start
      let segments ← scanSegments rounds parts.2
      return segments.map (parts.1 :: ·)

/-- A text is sliced where one of its parts ends. -/
theorem sliceAt_append (before after : List Char) :
    sliceAt (Utf8.encode (before ++ after)) (Utf8.encode before).length =
      .ok (Utf8.encode before, Utf8.encode after) := by
  rw [sliceAt, if_pos (Utf8.isBoundary_append before after), Utf8.encode_append, List.take_left',
    List.drop_left'] <;> rfl

/-- An ASCII character in front is one octet in front. -/
theorem encode_cons_of_lt {c : Char} (h : c.toNat < 0x80) (cs : List Char) :
    Utf8.encode (c :: cs) = c.toNat :: Utf8.encode cs := by
  rw [Utf8.encode_cons, Utf8.encodeChar_of_lt h, List.singleton_append]

/-- A text is sliced behind an ASCII character. -/
theorem sliceAt_append_cons {c : Char} (h : c.toNat < 0x80) (before after : List Char) :
    sliceAt (Utf8.encode (before ++ c :: after)) ((Utf8.encode before).length + 1) =
      .ok (Utf8.encode (before ++ [c]), Utf8.encode after) := by
  have hlength : (Utf8.encode (before ++ [c])).length = (Utf8.encode before).length + 1 := by
    rw [Utf8.encode_append, List.length_append, encode_cons_of_lt h]
    rfl
  have hslice := sliceAt_append (before ++ [c]) after
  rwa [hlength, List.append_assoc, List.singleton_append] at hslice

/-- A text that begins with another character than an ASCII one begins with another octet. -/
theorem exists_encode_eq_cons {sep c : Char} (hsep : sep.toNat < 0x80) (hne : c ≠ sep)
    (cs : List Char) : ∃ b bs, Utf8.encode (c :: cs) = b :: bs ∧ b ≠ sep.toNat := by
  obtain ⟨b, bs, hoctets, -⟩ := Utf8.exists_encodeChar_eq_cons c
  refine ⟨b, bs ++ Utf8.encode cs, by rw [Utf8.encode_cons, hoctets, List.cons_append], ?_⟩
  have hmem : b ∈ Utf8.encodeChar c := hoctets ▸ List.mem_cons_self
  exact fun heq => hne (Utf8.eq_of_mem_encodeChar hsep (heq ▸ hmem))

/-- Segments in brackets begin with an opening bracket. -/
theorem bracketed?_cons_of_ne {c : Char} (h : c ≠ '[') (cs : List Char) :
    bracketed? (c :: cs) = none := by
  rw [bracketed?]
  exact fun heq => h heq

/-- Without a closing bracket nothing is read inside a bracket. -/
theorem insideBracket?_of_not_mem {cs : List Char} (h : ']' ∉ cs) : insideBracket? cs = none := by
  refine Option.eq_none_iff_forall_ne_some.2 fun segments hsome => h ?_
  obtain ⟨segment, rest, _, -, rfl, -⟩ := exists_of_insideBracket? hsome
  exact List.mem_append_right _ List.mem_cons_self

/-- The scan of segments finds those that are read, whatever rounds are left in the end. -/
theorem scanSegments_encode {rounds : Nat} {cs : List Char}
    (h : (Utf8.encode cs).length ≤ rounds) :
    scanSegments rounds (Utf8.encode cs) =
      .ok ((bracketed? cs).map (List.map Utf8.encode)) := by
  induction rounds generalizing cs with
  | zero =>
    cases cs with
    | nil => rfl
    | cons c cs =>
      obtain ⟨b, bs, hoctets, -⟩ := Utf8.exists_encodeChar_eq_cons c
      rw [Utf8.encode_cons, hoctets] at h
      exact absurd h (by simp)
  | succ rounds ih =>
    cases cs with
    | nil => rfl
    | cons c cs =>
      by_cases hc : c = '['
      · subst hc
        rw [encode_cons_of_lt (by decide)] at h ⊢
        rw [scanSegments, if_neg (fun hne => hne rfl), Utf8.findIdx?_encode (by decide), bracketed?]
        cases hcut : cutAt ']' cs with
        | none => rw [insideBracket?_of_not_mem (cutAt_eq_none.1 hcut)]; rfl
        | some parts =>
          obtain ⟨segment, rest⟩ := parts
          obtain ⟨rfl, hclose⟩ := cutAt_eq_some hcut
          have hrest : (Utf8.encode rest).length ≤ rounds := by
            rw [Utf8.encode_append, encode_cons_of_lt (by decide), List.length_cons,
              List.length_append, List.length_cons] at h
            omega
          simp only [Option.map_some, sliceAt_append, sliceAt_append_cons (c := ']') (by decide)]
          -- both slices succeed, and one round less is left for what follows the bracket
          change (do
            let segments ← scanSegments rounds (Utf8.encode rest)
            return segments.map (Utf8.encode segment :: ·)) = _
          rw [ih hrest, insideBracket?_append hclose]
          cases bracketed? rest <;> rfl
      · obtain ⟨b, bs, hoctets, hne⟩ :=
          exists_encode_eq_cons (by decide : '['.toNat < 0x80) hc cs
        rw [hoctets, scanSegments, if_pos hne, bracketed?_cons_of_ne hc]
        rfl

/-- The scan of a key finds its segments. -/
theorem scanKey_encode {rounds : Nat} {raw : List Char}
    (h : (Utf8.encode raw).length ≤ rounds) :
    scanKey rounds (Utf8.encode raw) = .ok ((keyParts? raw).map (List.map Utf8.encode)) := by
  rw [scanKey, Utf8.findIdx?_encode (by decide), keyParts?]
  cases hcut : cutAt '[' raw with
  | none => rfl
  | some parts =>
    obtain ⟨head, after⟩ := parts
    obtain ⟨rfl, -⟩ := cutAt_eq_some hcut
    cases head with
    | nil => rfl
    | cons c head =>
      have hrest : (Utf8.encode ('[' :: after)).length ≤ rounds := by
        rw [Utf8.encode_append, List.length_append] at h
        omega
      obtain ⟨b, bs, hoctets, -⟩ := Utf8.exists_encodeChar_eq_cons c
      have hstart : (Utf8.encode (c :: head)).length ≠ 0 := by
        rw [Utf8.encode_cons, hoctets]
        exact Nat.succ_ne_zero _
      simp only [Option.map_some, if_neg hstart, sliceAt_append, List.isEmpty_cons,
        Bool.false_eq_true, if_false]
      change (do
        let segments ← scanSegments rounds (Utf8.encode ('[' :: after))
        return segments.map (Utf8.encode (c :: head) :: ·)) = _
      rw [scanSegments_encode hrest]
      cases bracketed? ('[' :: after) <;> rfl

/-! ### Keys by their grammar -/

/-- Keys are read by their grammar: the decoded segments of a raw key that is of the form of keys,
which it is in one way at most, and else the decoded text as a whole.  The scan of its octets fails
nowhere and finds the same. -/
theorem parseKey_grammar (raw : List Char) :
    (∀ path, parseKey raw = path ↔
      (∃ head segments, Bracketed raw head segments ∧ path = decode head :: segments.map decode) ∨
        (¬ ∃ head segments, Bracketed raw head segments) ∧ path = [decode raw]) ∧
    (∀ head segments other more, Bracketed raw head segments → Bracketed raw other more →
      head = other ∧ segments = more) ∧
    ∀ rounds, (Utf8.encode raw).length ≤ rounds → ∃ parts : Option (List (List Char)),
      scanKey rounds (Utf8.encode raw) = .ok (parts.map (List.map Utf8.encode)) ∧
        parseKey raw = (parts.map (List.map decode)).getD [decode raw] := by
  refine ⟨fun path => ?_, fun _ _ _ _ h h' => h.unique h', fun rounds h =>
    ⟨keyParts? raw, scanKey_encode h, parseKey_eq raw⟩⟩
  by_cases hform : ∃ head segments, Bracketed raw head segments
  · obtain ⟨head, segments, h⟩ := hform
    rw [h.parseKey]
    constructor
    · rintro rfl
      exact .inl ⟨head, segments, h, rfl⟩
    · rintro (⟨other, more, h', rfl⟩ | ⟨hnone, -⟩)
      · obtain ⟨rfl, rfl⟩ := h.unique h'
        rfl
      · exact absurd ⟨head, segments, h⟩ hnone
  · rw [parseKey_of_not_bracketed hform]
    constructor
    · rintro rfl
      exact .inr ⟨hform, rfl⟩
    · rintro (⟨head, segments, h, -⟩ | ⟨-, rfl⟩)
      · exact absurd ⟨head, segments, h⟩ hform
      · rfl

/-- An opening bracket within a segment belongs to the segment, and the octets of a character that
is not ASCII stay together. -/
theorem nestedBracket_grammar :
    let raw := ['a', '[', 'b', '[', 'c', ']', '[', 'é', ']']
    Bracketed raw ['a'] [['b', '[', 'c'], ['é']] ∧ (Utf8.encode raw).length ≤ 10 ∧
      parseKey raw = ["a", "b[c", "é"] ∧
      ∃ parts : Option (List (List Char)),
        scanKey 10 (Utf8.encode raw) = .ok (parts.map (List.map Utf8.encode)) ∧
          parseKey raw = (parts.map (List.map decode)).getD [decode raw] := by
  intro raw
  have hform : Bracketed raw ['a'] [['b', '[', 'c'], ['é']] :=
    ⟨rfl, by decide, by decide, by decide, by decide⟩
  have hlength : (Utf8.encode raw).length ≤ 10 := by decide
  have hpath : ["a", "b[c", "é"] = decode ['a'] :: [['b', '[', 'c'], ['é']].map decode := by
    decide +kernel
  exact ⟨hform, hlength, ((parseKey_grammar raw).1 _).2 (.inl ⟨_, _, hform, hpath⟩),
    (parseKey_grammar raw).2.2 10 hlength⟩

end QueryFilter.Query
