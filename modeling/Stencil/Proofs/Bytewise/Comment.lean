import Stencil.Proofs.Bytewise.Leaf

/-! # Comments by bytes

Scans comments. The search for the end of a comment starts at its opener, so the place of the
closing mark can lie inside of it, and the scanner then walks over the openers before that place to
report them. All the differences between places that are computed on the way stay positive.
-/

namespace Stencil

namespace Scanner

section

variable (source : List Char)

/-- The first mark that closes a comment, from a byte on: its place and its length. The loop comes
    round at most `n` times. -/
def closeFrom (bs : List UInt8) : (n start : Nat) → Checked (Option (Nat × Nat))
  | 0, _ => throw .endless
  | n + 1, start => do
    let tail ← Checked.bytesFrom bs start
    match Text.findBytes (Text.bytes ['-', '-']) tail with
    | none => return none
    | some found =>
      let after ← Checked.bytesFrom bs (start + found + 2)
      if (Text.bytes ['>']).isPrefixOf after then return some (start + found, 3)
      else if (Text.bytes ['!', '>']).isPrefixOf after then return some (start + found, 4)
      else closeFrom bs n (start + found + 1)

/-- Walks over the openers inside of a comment and reports them, at most `n` of them. The scanner
    is right before the byte `prev` of the comment; the result is the last such place. -/
def nestedOpeners (body : List UInt8) : (n prev : Nat) → Scanner Nat
  | 0, _ => throw .endless
  | n + 1, prev => do
    let tail ← Checked.bytesFrom body prev
    match Text.findBytes (Text.bytes Comment.opener) tail with
    | none => return prev
    | some found =>
      let nested := prev + found
      advance source ((← Checked.sub nested prev) + 1)
      reportIf source (nested + 4 < body.length) .nestedComment 0
      nestedOpeners body n (nested + 1)

/-- Scans a comment at its opener. -/
def comment : Scanner Comment := do
  let start ← position
  let rest ← rest source
  match ← closeFrom (Text.bytes rest) (Text.byteLength rest + 1) 0 with
  | none =>
    advance source (Text.byteLength rest)
    report source .eofInComment 0
    return ⟨(Text.cutFrom rest 4).toOption.getD [], ← selection source start⟩
  | some (index, closeLength) =>
    reportIf source (index ≤ 3) .abruptClosingOfEmptyComment 0
    reportIf source (closeLength = 4) .incorrectlyClosedComment 0
    let body ← Checked.bytesTo (Text.bytes rest) index
    let prev ← nestedOpeners source body (body.length + 1) 1
    advance source ((← Checked.sub (index + closeLength) prev) + 1)
    return ⟨(Text.cut rest 4 index).toOption.getD [], ← selection source start⟩

/-- Scans markup that is none as a comment. -/
def bogusComment : Scanner Comment := do
  let start ← position
  let rest ← rest source
  let first := if (Text.bytes rest)[1]?.any (Text.ofByte (· == '?')) then 1 else 2
  match (Text.bytes rest).findIdx? (Text.ofByte (· == '>')) with
  | some close =>
    advance source (close + 1)
    return ⟨(Text.cut rest first close).toOption.getD [], ← selection source start⟩
  | none =>
    advance source (Text.byteLength rest)
    return ⟨(Text.cutFrom rest first).toOption.getD [], ← selection source start⟩

end

end Scanner

/-! ## Where a comment is closed -/

namespace Text

variable {p q : List Char → Bool}

theorem eq_false_of_imp (imp : ∀ t, p t = true → q t = true) {s : List Char}
    (h : q s = false) : p s = false := by
  cases here : p s with
  | false => rfl
  | true => exact absurd (imp s here) (by simp [h])

theorem seek_eq_none_of_imp (imp : ∀ t, p t = true → q t = true) {s : List Char}
    (h : seek q s = none) : seek p s = none := by
  induction s with
  | nil =>
      have fails : q [] = false := by simpa [seek] using h
      simp [seek, eq_false_of_imp imp fails]
  | cons c s ih =>
      cases answer : q (c :: s) with
      | true => simp [seek, answer] at h
      | false =>
          have later : seek q s = none := by simpa [seek, answer] using h
          simp [seek, eq_false_of_imp imp answer, ih later]

/-- A search can go ahead to where something is found that has to hold anyway. -/
theorem seek_of_imp (imp : ∀ t, p t = true → q t = true) {s : List Char} {m : Nat}
    (h : seek q s = some m) : seek p s = (seek p (s.drop m)).map (m + ·) := by
  induction s generalizing m with
  | nil => simp [Nat.le_zero.mp (seek_le_length h)]
  | cons c s ih =>
      cases answer : q (c :: s) with
      | true =>
          rw [seek, if_pos answer] at h
          cases h
          simp
      | false =>
          rw [seek, answer] at h
          obtain ⟨n, found, rfl⟩ := Option.map_eq_some_iff.mp h
          rw [seek, eq_false_of_imp imp answer, if_neg Bool.false_ne_true, ih found,
            Option.map_map, List.drop_succ_cons]
          congr 1
          funext k
          simp only [Function.comp_apply]
          omega

end Text

namespace Comment

/-- Where a comment is closed, in bytes: the place of the closing mark and its length. -/
def closeOf (s : List Char) : Option (Nat × Nat) :=
  (Text.seek (fun t => (closerAt? t).isSome) s).map fun i =>
    (Text.byteLength (s.take i), ((closerAt? (s.drop i)).getD []).length)

theorem prefix_of_closerAt? {t mark : List Char} (h : closerAt? t = some mark) :
    mark <+: t ∧ mark ∈ closers := by
  have starts : mark.isPrefixOf t = true := List.find?_some (p := fun m => List.isPrefixOf m t) h
  exact ⟨List.isPrefixOf_iff_prefix.mp starts, List.mem_of_find?_eq_some h⟩

theorem hyphens_of_closerAt? (t : List Char) (h : (closerAt? t).isSome = true) :
    ['-', '-'].isPrefixOf t = true := by
  obtain ⟨mark, found⟩ := Option.isSome_iff_exists.mp h
  obtain ⟨starts, member⟩ := prefix_of_closerAt? found
  have hyphens : ∀ mark ∈ closers, ['-', '-'] <+: mark := by decide
  exact List.isPrefixOf_iff_prefix.mpr ((hyphens mark member).trans starts)

theorem closerAt?_hyphens (t : List Char) :
    closerAt? ('-' :: '-' :: t) =
      if ['>'].isPrefixOf t then some "-->".toList
      else if ['!', '>'].isPrefixOf t then some "--!>".toList else none := by
  have first : "-->".toList.isPrefixOf ('-' :: '-' :: t) = ['>'].isPrefixOf t := rfl
  have second : "--!>".toList.isPrefixOf ('-' :: '-' :: t) = ['!', '>'].isPrefixOf t := rfl
  simp only [closerAt?, closers, List.find?, first, second]
  cases ['>'].isPrefixOf t <;> cases ['!', '>'].isPrefixOf t <;> rfl

/-- A closing mark is found at the first two hyphens or after them. -/
theorem closeOf_hyphens {s t : List Char} {m : Nat} (found : Text.find ['-', '-'] s = some m)
    (rest : s.drop m = '-' :: '-' :: t) :
    closeOf s =
      if ['>'].isPrefixOf t then some (Text.byteLength (s.take m), 3)
      else if ['!', '>'].isPrefixOf t then some (Text.byteLength (s.take m), 4)
      else (closeOf (s.drop (m + 1))).map fun p =>
        (Text.byteLength (s.take (m + 1)) + p.1, p.2) := by
  have closes := Text.seek_of_imp hyphens_of_closerAt? found
  have closer := closerAt?_hyphens t
  rw [rest, Text.seek] at closes
  cases first : ['>'].isPrefixOf t with
  | true =>
      rw [first, if_pos rfl] at closer
      simp [closeOf, closes, rest, closer]
  | false =>
      cases second : ['!', '>'].isPrefixOf t with
      | true =>
          rw [first, second, if_neg Bool.false_ne_true, if_pos rfl] at closer
          simp [closeOf, closes, rest, closer]
      | false =>
          rw [first, second, if_neg Bool.false_ne_true, if_neg Bool.false_ne_true] at closer
          have next : s.drop (m + 1) = '-' :: t := by
            rw [← List.drop_drop, rest]
            rfl
          rw [closeOf, closes, closer, ← next]
          simp only [Option.isSome_none, Bool.false_eq_true, if_false, closeOf, Option.map_map]
          congr 1
          funext i
          have place : m + (i + 1) = m + 1 + i := by omega
          simp only [Function.comp_apply, place, List.take_add (i := m + 1), Text.byteLength_append,
            List.drop_drop]

end Comment

namespace Scanner

open Comment in
/-- Searching for two hyphens and looking at what follows them finds the first closing mark. -/
theorem closeFrom_eq (s : List Char) {n k : Nat} (inside : k ≤ s.length)
    (rounds : s.length < n + k) :
    closeFrom (Text.bytes s) n (Text.byteLength (s.take k)) =
      pure ((closeOf (s.drop k)).map fun p => (Text.byteLength (s.take k) + p.1, p.2)) := by
  obtain ⟨n, rfl⟩ : ∃ m, n = m + 1 := Nat.exists_eq_add_of_le' (by omega)
  rw [closeFrom, Checked.bytesFrom_take, pure_bind, Text.findBytes_bytes]
  cases found : Text.find ['-', '-'] (s.drop k) with
  | none => simp [closeOf, Text.seek_eq_none_of_imp hyphens_of_closerAt? found]
  | some m =>
      obtain ⟨t, rest⟩ : ∃ t, s.drop (k + m) = '-' :: '-' :: t := by
        obtain ⟨t, rest⟩ := List.isPrefixOf_iff_prefix.mp (Text.seek_holds found)
        rw [List.drop_drop] at rest
        exact ⟨t, rest.symm⟩
      have place (j : Nat) (le : j ≤ 2) : Text.byteLength (s.take k) +
          Text.byteLength ((s.drop k).take m) + j = Text.byteLength (s.take (k + m + j)) := by
        rw [Text.byteLength_take_add (a := ['-', '-']) ⟨t, rest.symm⟩ (by decide) le,
          List.take_add, Text.byteLength_append]
      have after : s.drop (k + m + 2) = t := by
        rw [← List.drop_drop, rest]
        rfl
      have shorter : k + m + 1 ≤ s.length := by
        have length := congrArg List.length rest
        simp only [List.length_cons, List.length_drop] at length
        omega
      have closes := closeOf_hyphens found (by rw [List.drop_drop, rest])
      simp only [Option.map_some, place 2 (Nat.le_refl 2), Checked.bytesFrom_take, pure_bind,
        Text.isPrefixOf_bytes, after, closes]
      split
      · rfl
      · split
        · rfl
        · have later := closeFrom_eq s shorter (n := n) (by omega)
          have length : Text.byteLength (s.take k) +
              Text.byteLength ((s.drop k).take (m + 1)) = Text.byteLength (s.take (k + m + 1)) := by
            rw [Nat.add_assoc k, List.take_add (i := k), Text.byteLength_append]
          simp only [place 1 (by decide), later, List.drop_drop, Option.map_map, Function.comp_def,
            ← Nat.add_assoc, length]
termination_by n

end Scanner

/-! ## The openers inside of a comment -/

namespace Comment

theorem openersFrom_of_none {s : List Char} (h : Text.find opener s = none) (i limit : Nat) :
    openersFrom i limit s = [] := by
  induction s generalizing i with
  | nil => rfl
  | cons c s ih =>
      cases here : opener.isPrefixOf (c :: s) with
      | true => simp [Text.find, Text.seek, here] at h
      | false =>
          have later : Text.find opener s = none := by
            simpa [Text.find, Text.seek, here] using h
          simp [openersFrom, here, ih later]

theorem openersFrom_of_some {s : List Char} {m : Nat} (h : Text.find opener s = some m)
    (i limit : Nat) :
    openersFrom i limit s =
      (if i + m + 4 < limit then [i + m] else []) ++
        openersFrom (i + m + 1) limit (s.drop (m + 1)) := by
  induction s generalizing i m with
  | nil => simp [Text.find, Text.seek, opener] at h
  | cons c s ih =>
      cases here : opener.isPrefixOf (c :: s) with
      | true =>
          have zero : m = 0 := by simpa [Text.find, Text.seek, here] using h.symm
          subst zero
          rw [openersFrom, here, Bool.true_and]
          change (if decide (i + 4 < limit) = true then _ else _) = _
          simp only [decide_eq_true_eq, Nat.add_zero]
          split <;> rfl
      | false =>
          rw [Text.find, Text.seek, here] at h
          obtain ⟨n, found, rfl⟩ := Option.map_eq_some_iff.mp h
          have place : i + 1 + n = i + (n + 1) := by omega
          rw [openersFrom, here, Bool.false_and, if_neg Bool.false_ne_true, ih found (i + 1),
            List.drop_succ_cons, place]

end Comment

namespace Scanner

variable {source : List Char} {c : Cursor}

/-- The walk over the openers of a comment that is closed at place `i`, once it stands at a
    character `<` at place `k`. -/
theorem nestedOpeners_run (h : c.Within source) {i k n : Nat} (limit : i ≤ c.rest.length)
    (inside : k + 1 ≤ i) (rounds : i ≤ n + k) (mark : ['<'] <+: c.rest.drop k) (log : Log) :
    ∃ j, j + 1 ≤ i ∧ ['<'] <+: c.rest.drop j ∧
      (nestedOpeners source (Text.bytes (c.rest.take i)) n
        (Text.byteLength (c.rest.take (k + 1)))).run ⟨(c.skip k).position, log⟩ =
      pure (Text.byteLength (c.rest.take (j + 1)), ⟨(c.skip j).position, log ++ .ofErrors
        ((Comment.openersFrom (k + 1) i ((c.rest.take i).drop (k + 1))).map
          fun x => .at .nestedComment (c.ahead x))⟩) := by
  have shorten (n : Nat) (le : n ≤ i) : c.rest.take n = (c.rest.take i).take n := by
    rw [List.take_take, Nat.min_eq_left le]
  have tail :
      Checked.bytesFrom (Text.bytes (c.rest.take i)) (Text.byteLength (c.rest.take (k + 1))) =
        pure (Text.bytes ((c.rest.take i).drop (k + 1))) := by
    rw [shorten _ inside, Checked.bytesFrom_take]
  obtain ⟨n, rfl⟩ : ∃ m, n = m + 1 := Nat.exists_eq_add_of_le' (by omega)
  rw [nestedOpeners]
  simp only [StateT.run_bind, tail, StateT.run_monadLift, monadLift_self, pure_bind,
    Text.findBytes_bytes]
  cases found : Text.find Comment.opener ((c.rest.take i).drop (k + 1)) with
  | none =>
      refine ⟨k, inside, mark, ?_⟩
      simp only [Comment.openersFrom_of_none found, List.map_nil, Option.map_none, StateT.run_pure]
      rw [Log.ofErrors_nil, Log.append_empty]
  | some m =>
      have opener : Comment.opener <+: (c.rest.take i).drop (k + 1 + m) := by
        have here := List.isPrefixOf_iff_prefix.mp (Text.seek_holds found)
        rw [List.drop_drop] at here
        exact here
      have room : k + 1 + m + 4 ≤ i := by
        have length := opener.length_le
        rw [List.length_drop, List.length_take, Nat.min_eq_left limit] at length
        change 4 ≤ i - (k + 1 + m) at length
        omega
      have there : Comment.opener <+: c.rest.drop (k + 1 + m) := by
        refine opener.trans ?_
        rw [List.drop_take]
        exact List.take_prefix _ _
      have bracket : ['<'] <+: c.rest.drop (k + 1 + m) := .trans (by decide) there
      have nested : Text.byteLength (c.rest.take (k + 1)) +
          Text.byteLength (((c.rest.take i).drop (k + 1)).take m) =
          Text.byteLength (c.rest.take (k + 1 + m)) := by
        rw [shorten (k + 1 + m) (by omega), List.take_add (i := k + 1), Text.byteLength_append,
          ← shorten _ inside]
      have behind : Text.byteLength (c.rest.take (k + 1)) ≤
          Text.byteLength (c.rest.take (k + 1 + m)) :=
        Text.byteLength_take_le_take c.rest (Nat.le_add_right _ _)
      have step : Text.byteLength (c.rest.take (k + 1 + m)) -
          Text.byteLength (c.rest.take (k + 1)) + 1 =
          Text.byteLength ((c.skip k).rest.take (m + 1)) := by
        have first := Text.byteLength_take_add mark (by decide) (Nat.le_refl 1)
        have whole : Text.byteLength (c.rest.take (k + 1 + m)) =
            Text.byteLength (c.rest.take k) + Text.byteLength ((c.skip k).rest.take (m + 1)) := by
          rw [Cursor.rest_skip, ← Text.byteLength_append, ← List.take_add, Nat.add_assoc,
            Nat.add_comm 1]
        omega
      have arrives : (c.skip k).skip (m + 1) = c.skip (k + 1 + m) := by
        rw [Cursor.skip_skip, Nat.add_assoc, Nat.add_comm 1]
      have ends : Text.byteLength (c.rest.take (k + 1 + m)) + 4 <
          (Text.bytes (c.rest.take i)).length ↔ k + 1 + m + 4 < i := by
        rw [Text.length_bytes, ← Text.byteLength_take_add there (by decide) (Nat.le_refl 4)]
        constructor
        · intro less
          refine Nat.lt_of_not_le fun le => ?_
          have := Text.byteLength_take_le_take c.rest le
          omega
        · exact fun less => Text.byteLength_take_lt c.rest less limit
      obtain ⟨j, before, last, run⟩ := nestedOpeners_run h limit (k := k + 1 + m) (n := n)
        (by omega) (by omega) bracket
        (log ++ .ofErrors (if k + 1 + m + 4 < i then [.at .nestedComment (c.ahead (k + 1 + m))]
          else []))
      refine ⟨j, before, last, ?_⟩
      rw [Text.byteLength_take_add bracket (by decide) (Nat.le_refl 1)] at run
      simp only [Option.map_some, StateT.run_bind, nested, Checked.sub_of_le behind,
        StateT.run_monadLift, monadLift_self, pure_bind, step, advance_run (h.skip k), arrives,
        reportIf_zero_run (h.skip _), ends]
      have reports : (if k + 1 + m + 4 < i then [k + 1 + m] else []).map
          (fun x => ParseError.at .nestedComment (c.ahead x)) =
          if k + 1 + m + 4 < i then [.at .nestedComment (c.ahead (k + 1 + m))] else [] := by
        split <;> rfl
      rw [Comment.openersFrom_of_some found, List.map_append, reports, Log.ofErrors_append,
        ← Log.append_assoc, List.drop_drop]
      exact run
termination_by i - k

theorem closeFrom_zero (s : List Char) :
    closeFrom (Text.bytes s) (Text.byteLength s + 1) 0 = pure (Comment.closeOf s) := by
  have enough := Text.length_le_byteLength s
  have close := closeFrom_eq s (n := Text.byteLength s + 1) (Nat.zero_le _) (by omega)
  simpa using close

/-- Inside of the opener of a comment, bytes are counted like characters. -/
theorem byteLength_take_opener {s : List Char} (starts : Comment.opener <+: s) {n : Nat}
    (inside : n ≤ 4) : Text.byteLength (s.take n) = n := by
  have count := Text.byteLength_take_add (n := 0) (j := n) starts (by decide) inside
  simpa using count

theorem le_three_iff {s : List Char} (starts : Comment.opener <+: s) (i : Nat) :
    Text.byteLength (s.take i) ≤ 3 ↔ i ≤ 3 := by
  constructor
  · intro le
    refine Nat.le_of_not_lt fun more => ?_
    have most := Text.byteLength_take_le_take s (Nat.succ_le_of_lt more)
    rw [byteLength_take_opener starts (Nat.le_refl 4)] at most
    omega
  · intro le
    rw [byteLength_take_opener starts (by omega)]
    exact le

/-- What a cut from one of the first characters of a text on gives, where these have one byte. -/
theorem getD_cut_take {s : List Char} {n : Nat} (ascii : ∀ m ≤ n, Text.byteLength (s.take m) = m)
    (i : Nat) : (Text.cut s n (Text.byteLength (s.take i))).toOption.getD [] =
      (s.take i).drop n := by
  rcases Nat.lt_or_ge i n with less | more
  · rw [ascii i (Nat.le_of_lt less), Text.cut, if_pos less,
      List.drop_eq_nil_of_le (by rw [List.length_take]; omega)]
    rfl
  · have cut := Text.cut_take s more
    rw [ascii n (Nat.le_refl n)] at cut
    rw [cut]
    rfl

theorem comment_performs (h : c.Within source) (starts : Comment.opener <+: c.rest) :
    (comment source).Performs c (Comment.read c) := by
  intro log
  simp only [comment, StateT.run_bind, position, StateT.run_get, pure_bind, StateT.run_pure,
    rest_run h, closeFrom_zero, StateT.run_monadLift, monadLift_self, Comment.read]
  cases close : Text.seek (fun s => (Comment.closerAt? s).isSome) c.rest with
  | none =>
      have whole := advance_run h c.rest.length log
      rw [List.take_length] at whole
      have content := Text.cutFrom_take c.rest 4
      rw [byteLength_take_opener starts (Nat.le_refl 4)] at content
      simp only [Comment.closeOf, close, Option.map_none, StateT.run_bind, whole, pure_bind,
        report_zero_run (h.skip _), content, selection_run h (c.reaches_skip _), StateT.run_pure]
      rfl
  | some i =>
      obtain ⟨mark, closer⟩ := Option.isSome_iff_exists.mp (Text.seek_holds close)
      obtain ⟨closes, member⟩ := Comment.prefix_of_closerAt? closer
      have limit := Text.seek_le_length close
      have inside : 0 + 1 ≤ i := by
        refine Nat.pos_of_ne_zero fun zero => ?_
        rw [zero, List.drop_zero] at closes
        have hyphens : ∀ mark ∈ Comment.closers, ['-'] <+: mark := by decide
        obtain ⟨t, rest⟩ := starts
        obtain ⟨u, rest'⟩ := (hyphens mark member).trans closes
        rw [← rest] at rest'
        cases rest'
      have ascii : ∀ mark ∈ Comment.closers, Text.AllAscii mark := by decide
      have stop := Text.byteLength_take_add closes (ascii mark member) (Nat.le_refl _)
      have bracket : ['<'] <+: c.rest.drop 0 := .trans (by decide) starts
      have rounds : i ≤ (Text.bytes (c.rest.take i)).length + 1 + 0 := by
        have chars := Text.length_le_byteLength (c.rest.take i)
        rw [List.length_take, Nat.min_eq_left limit] at chars
        rw [Text.length_bytes]
        omega
      obtain ⟨j, before, last, walk⟩ := nestedOpeners_run h limit inside rounds bracket
        (log ++ .ofErrors (if i ≤ 3 then [.at .abruptClosingOfEmptyComment c.position] else []) ++
          .ofErrors (if mark.length = 4 then [.at .incorrectlyClosedComment c.position] else []))
      have first := Text.byteLength_take_add last (by decide) (Nat.le_refl 1)
      have behind := Text.byteLength_take_le_take c.rest (Nat.le_trans before
        (Nat.le_add_right i mark.length))
      rw [stop] at behind
      have step : Text.byteLength (c.rest.take i) + mark.length -
          Text.byteLength (c.rest.take (j + 1)) + 1 =
          Text.byteLength ((c.skip j).rest.take (i + mark.length - j)) := by
        have whole : Text.byteLength (c.rest.take (i + mark.length)) = Text.byteLength
            (c.rest.take j) + Text.byteLength ((c.skip j).rest.take (i + mark.length - j)) := by
          rw [Cursor.rest_skip, ← Text.byteLength_append, ← List.take_add,
            Nat.add_sub_cancel' (by omega)]
        omega
      have arrives : (c.skip j).skip (i + mark.length - j) = c.skip (i + mark.length) := by
        rw [Cursor.skip_skip, Nat.add_sub_cancel' (by omega)]
      have one := byteLength_take_opener starts (n := 0 + 1) (by decide)
      rw [one] at walk
      simp only [Comment.closeOf, close, closer, Option.map_some, Option.getD_some,
        StateT.run_bind, reportIf_zero_run h, le_three_iff starts, pure_bind,
        Checked.bytesTo_take, StateT.run_monadLift, monadLift_self]
      change (nestedOpeners source _ _ 1).run ⟨c.position, _⟩ = _ at walk
      simp only [walk, pure_bind, Checked.sub_of_le behind, step, advance_run (h.skip j), arrives,
        getD_cut_take (fun m le => byteLength_take_opener starts le),
        selection_run h (c.reaches_skip _), StateT.run_pure]
      simp only [Comment.closedErrors, Log.ofErrors_append, Log.append_assoc, Nat.zero_add]

/-- Markup that is none starts with two characters of one byte. -/
theorem bogusComment_performs (h : c.Within source) {d : Char} (ascii : d.toNat < 128)
    (starts : ['<', d] <+: c.rest) : (bogusComment source).Performs c (Comment.readBogus c) := by
  have second : (Text.bytes c.rest)[1]?.any (Text.ofByte (· == '?')) =
      (c.rest[1]? == some '?') := by
    obtain ⟨t, rest⟩ := starts
    rw [← rest]
    simp [Text.bytes_cons, Text.utf8EncodeChar_of_lt ascii,
      Text.utf8EncodeChar_of_lt (c := '<') (by decide), Text.ofByte_ofNat _ ascii]
  have places (n : Nat) (le : n ≤ 2) : Text.byteLength (c.rest.take n) = n := by
    have count := Text.byteLength_take_add (n := 0) (j := n) starts
      (by simp [Text.AllAscii, ascii]) le
    simpa using count
  intro log
  simp only [bogusComment, StateT.run_bind, position, StateT.run_get, pure_bind, StateT.run_pure,
    rest_run h, second, Text.findIdx?_bytes (.beq (d := '>') (by decide)), Comment.readBogus, bne]
  generalize width : (if (c.rest[1]? == some '?') = true then 1 else 2) = first
  have few : first ≤ 2 := by
    rw [← width]
    split <;> decide
  have body : c.rest.take (c.rest.takeWhile fun x => !(x == '>')).length =
      c.rest.takeWhile fun x => !(x == '>') := Text.take_length_takeWhile _ _
  cases found : c.rest.any (· == '>') with
  | true =>
      have close : ['>'] <+: c.rest.drop (c.rest.takeWhile fun x => !(x == '>')).length := by
        obtain ⟨x, t, rest, same⟩ := Text.exists_drop_takeWhile found
        rw [rest, ← beq_iff_eq.mp same]
        exact ⟨t, rfl⟩
      have step := Text.byteLength_take_add close (by decide) (Nat.le_refl 1)
      have content := getD_cut_take (fun m le => places m (Nat.le_trans le few))
        (c.rest.takeWhile fun x => !(x == '>')).length
      rw [body] at step content
      simp only [if_true, StateT.run_bind, ← step, advance_run h, pure_bind, content,
        selection_run h (c.reaches_skip _), StateT.run_pure, Log.append_empty]
  | false =>
      have all : (c.rest.takeWhile fun x => !(x == '>')) = c.rest := Text.takeWhile_eq_self found
      have whole := advance_run h (c.rest.length + 1) log
      rw [List.take_of_length_le (Nat.le_succ _)] at whole
      have content := Text.cutFrom_take c.rest first
      rw [places first few] at content
      simp only [Bool.false_eq_true, if_false, StateT.run_bind, whole, pure_bind, content,
        selection_run h (c.reaches_skip _), StateT.run_pure, Log.append_empty, all]
      rfl

end Scanner

end Stencil
