/-
  PatternCatalog.Proofs.Markup.Cursor — walks of a cursor that no check stops.

  A walk follows a scanner when, from the place before the text that is left, it gives what the
  scanner gives, at the place before the text that is left then, and fails with the error that the
  scanner's failure stands for (`Follows`). A walk that follows a scanner has no fault, and each
  place that it comes to has a suffix of the text behind it. Walks are followed step by step
  (`Follows.bind`), loops round by round (`follows_loop`): a round that goes on has left less text.
  What the checks let through is told by `seek_ok_iff` and `slice_ok_iff`.
-/

import PatternCatalog.Markup.Cursor
import PatternCatalog.Proofs.Markup.Calls
import PatternCatalog.Proofs.Text.Octets

namespace PatternCatalog.Markup

open Text

/-! ## What the checks let through -/

namespace Cursor

/-- A cursor is moved to a place of its text, and to any of them. -/
theorem seek_ok_iff {octet : Nat} {c c' : Cursor} : seek octet c = .ok ((), c') ↔ c'.text = c.text ∧ c'.place = octet := by
  rw [seek]
  constructor
  · intro h
    split at h
    · obtain ⟨-, rfl⟩ := Prod.mk.inj (Except.ok.inj h)
      exact ⟨rfl, rfl⟩
    · cases h
  · rintro ⟨htext, rfl⟩
    have hplace := c'.isPlace
    rw [htext] at hplace
    rw [dif_pos hplace]
    exact congrArg (fun c => Except.ok ((), c)) (Cursor.ext htext.symm rfl)

example : seek 1 (ofText ['é']) = .error (.fault (.place 1)) := rfl

/-- A slice is a part of its text, between places in order. -/
theorem slice_ok_iff {s u : List Char} {first last : Nat} {c c' : Cursor} : slice s first last c = .ok (u, c') ↔
    first ≤ last ∧ (∃ v w, s = v ++ (u ++ w) ∧ octets v = first ∧ octets u = last - first) ∧ c' = c := by
  rw [slice]
  constructor
  · intro h
    by_cases hle : first ≤ last
    · rw [if_pos hle] at h
      cases hfirst : splitOctets? first s with
      | none => rw [hfirst] at h; cases h
      | some parts =>
        obtain ⟨v, t⟩ := parts
        obtain ⟨rfl, hv⟩ := splitOctets?_some hfirst
        rw [hfirst] at h
        dsimp only at h
        cases hlast : splitOctets? (last - first) t with
        | none => rw [hlast] at h; cases h
        | some parts =>
          obtain ⟨u', w⟩ := parts
          obtain ⟨rfl, hu⟩ := splitOctets?_some hlast
          rw [hlast] at h
          obtain ⟨rfl, rfl⟩ := Prod.mk.inj (Except.ok.inj h)
          exact ⟨hle, ⟨v, _, rfl, hv, hu⟩, rfl⟩
    · rw [if_neg hle] at h
      cases h
  · rintro ⟨hle, ⟨v, w, rfl, rfl, hu⟩, rfl⟩
    rw [if_pos hle, splitOctets?_append, ← hu]
    dsimp only
    rw [splitOctets?_append]
    rfl

end Cursor

/-! ## Walks and scanners -/

/-- The text that was left where a scanner failed. -/
def Failure.left? : Failure → Option (List Char)
  | .expected _ s => some s
  | .mismatchedClose _ _ s => some s
  | .tooDeep _ => none

section

variable {α β σ τ : Type} {src left : List Char}

theorem isSome_splitOctets?_of_suffix (h : left <:+ src) : (splitOctets? (octets src - octets left) src).isSome = true := by
  obtain ⟨u, rfl⟩ := h
  exact isSome_splitOctets?_iff.mpr ⟨u, left, rfl, by rw [octets_append, Nat.add_sub_cancel]⟩

/-- The cursor before the text that is left. -/
def Cursor.before (h : left <:+ src) : Cursor := ⟨src, octets src - octets left, isSome_splitOctets?_of_suffix h⟩

/-- What a scanner of the text that is left gives, as the cursor gives it. -/
inductive Answers (src left : List Char) : Scan (α × List Char) → Except Stop (α × Cursor) → Prop
  | ok {a : α} {r : List Char} (hr : r <:+ left) (hsrc : r <:+ src) : Answers src left (.ok (a, r)) (.ok (a, .before hsrc))
  | error {e : Failure} (he : ∀ s ∈ e.left?, s <:+ src) :
      Answers src left (.error e) (.error (.error (e.error (octets src))))

theorem Answers.of_suffix {r : List Char} {scan : Scan (α × List Char)} {answer : Except Stop (α × Cursor)}
    (h : Answers src r scan answer) (hr : r <:+ left) : Answers src left scan answer := by
  cases h with
  | ok hr' hsrc => exact .ok (hr'.trans hr) hsrc
  | error he => exact .error he

/-- From the place before the text that is left, a walk gives what a scanner gives. -/
def Follows (src left : List Char) (walk : Walk α) (scan : Scan (α × List Char)) : Prop :=
  ∀ h : left <:+ src, Answers src left scan (walk (.before h))

/-- A walk is followed only from places of the text. -/
theorem Follows.within {walk : Walk α} {scan : Scan (α × List Char)} (h : left <:+ src → Follows src left walk scan) :
    Follows src left walk scan := fun hsrc => h hsrc hsrc

theorem Follows.suffix {walk : Walk α} {a : α} {r : List Char} (h : Follows left left walk (.ok (a, r))) : r <:+ left := by
  have hanswers := h List.suffix_rfl
  generalize walk (.before List.suffix_rfl) = answer at hanswers
  cases hanswers with
  | ok hr _ => exact hr

theorem Follows.pure (a : α) : Follows src left (Pure.pure a) (.ok (a, left)) := .ok List.suffix_rfl

theorem Follows.bind {walk : Walk α} {scan : Scan (α × List Char)} {next : α → Walk β} {k : α × List Char → Scan (β × List Char)}
    (h : Follows src left walk scan) (hnext : ∀ a r, scan = .ok (a, r) → r <:+ left → Follows src r (next a) (k (a, r))) :
    Follows src left (walk >>= next) (scan >>= k) := by
  intro hsrc
  have hwalk := h hsrc
  change Answers src left _ (walk (.before hsrc) >>= fun (a, c) => next a c)
  generalize walk (.before hsrc) = answer at hwalk
  cases hwalk with
  | ok hr hsrc' => exact (hnext _ _ rfl hr hsrc').of_suffix hr
  | error he => exact .error he

/-- A walk goes on where a scanner went. -/
theorem Follows.step {walk : Walk α} {a : α} {r : List Char} {next : α → Walk β} {scan : Scan (β × List Char)}
    (h : Follows src left walk (.ok (a, r))) (hnext : Follows src r (next a) scan) : Follows src left (walk >>= next) scan :=
  h.bind (k := fun _ => scan) fun a' r' heq _ => by
    obtain ⟨rfl, rfl⟩ := Prod.mk.inj (Except.ok.inj heq)
    exact hnext

/-- A walk ends where a scanner failed. -/
theorem Follows.failed {walk : Walk α} {e : Failure} {next : α → Walk β} (h : Follows src left walk (.error e)) :
    Follows src left (walk >>= next) (.error e) :=
  h.bind (k := fun _ => .error e) fun _ _ heq _ => nomatch heq

/-- A walk that gives less than a scanner goes on where the scanner does. -/
theorem Follows.bind_map {walk : Walk α} {scan : Scan (τ × List Char)} {f : τ → α} {next : α → Walk β}
    {k : τ × List Char → Scan (β × List Char)}
    (h : Follows src left walk (do
      let (t, r) ← scan
      return (f t, r)))
    (hnext : ∀ t r, scan = .ok (t, r) → Follows src r (next (f t)) (k (t, r))) :
    Follows src left (walk >>= next) (scan >>= k) := by
  cases scan with
  | error e => exact Follows.failed h
  | ok step => exact Follows.step h (hnext step.1 step.2 rfl)

/-- A list that is read on with nothing before it. -/
theorem Follows.of_nil {walk : Walk (List α)} {scan : Scan (List α × List Char)}
    (h : Follows src left walk (do
      let (others, r) ← scan
      return ([] ++ others, r))) : Follows src left walk scan :=
  (bind_pure scan) ▸ h

/-- What is read next stands between what was read before and the others. -/
theorem Follows.behind {walk : Walk (List α)} {scan : Scan (List α × List Char)} {before next : List α}
    (h : Follows src left walk (do
      let (others, r) ← scan
      return (before ++ next ++ others, r))) :
    Follows src left walk (do
      let (all, r) ← (do
        let (others, r) ← scan
        return (next ++ others, r))
      return (before ++ all, r)) := by
  rw [bind_assoc]
  simp only [List.append_assoc] at h
  exact h

/-! ## Places -/

theorem octets_sub_append {u r : List Char} (h : (u ++ r) <:+ src) :
    octets src - octets (u ++ r) + octets u = octets src - octets r := by
  have hle := octets_le_of_suffix h
  rw [octets_append] at hle ⊢
  omega

namespace Cursor

theorem ofText_eq (s : List Char) : ofText s = before (List.suffix_rfl : s <:+ s) := Cursor.ext rfl (Nat.sub_self _).symm

theorem left_before (h : left <:+ src) : (before h).left = octets left := by
  have hle := octets_le_of_suffix h
  simp only [Cursor.left, before]
  omega

theorem follows_seek {r : List Char} (h : r <:+ left) : Follows src left (seek (octets src - octets r)) (.ok ((), r)) := by
  intro hsrc
  have hseek : seek (octets src - octets r) (before hsrc) = .ok ((), before (h.trans hsrc)) := seek_ok_iff.mpr ⟨rfl, rfl⟩
  rw [hseek]
  exact .ok h _

theorem follows_get (h : left <:+ src) : Follows src left get (.ok (before h, left)) := .ok List.suffix_rfl

theorem follows_here : Follows src left here (.ok (octets src - octets left, left)) := .ok List.suffix_rfl

theorem follows_advance (u r : List Char) : Follows src (u ++ r) (advance (octets u)) (.ok ((), r)) := by
  intro hsrc
  refine (follows_here.step ?_ : Follows src (u ++ r) (advance (octets u)) (.ok ((), r))) hsrc
  rw [octets_sub_append hsrc]
  exact follows_seek (List.suffix_append u r)

theorem slice_append (u v w : List Char) : slice (u ++ (v ++ w)) (octets u) (octets u + octets v) = pure v := by
  funext c
  exact slice_ok_iff.mpr ⟨Nat.le_add_right _ _, ⟨u, w, rfl, rfl, (Nat.add_sub_cancel_left _ _).symm⟩, rfl⟩

/-- What stands before a place of the text can be sliced out, wherever the cursor is. -/
theorem follows_source {u r : List Char} (h : (u ++ r) <:+ src) :
    Follows src left (source (octets src - octets (u ++ r)) (octets src - octets r)) (.ok (u, left)) := by
  intro hsrc
  obtain ⟨t, rfl⟩ := h
  have hfirst : octets (t ++ (u ++ r)) - octets (u ++ r) = octets t := by rw [octets_append]; omega
  have hlast : octets (t ++ (u ++ r)) - octets r = octets t + octets u := by rw [octets_append, octets_append]; omega
  have hsource : source (octets t) (octets t + octets u) (before hsrc) = .ok (u, before hsrc) :=
    congrFun (slice_append t u r) (before hsrc)
  rw [hfirst, hlast, hsource]
  exact .ok List.suffix_rfl _

theorem follows_rest : Follows src left rest (.ok (left, left)) := by
  intro hsrc
  have hleft : (left ++ []) <:+ src := by rwa [List.append_nil]
  have hsource : Answers src left _ _ := follows_source hleft hsrc
  rwa [List.append_nil] at hsource

theorem follows_peek : Follows src left peek (.ok (left.head?, left)) := follows_rest.step (.pure _)

theorem follows_bump (c : Char) (r : List Char) : Follows src (c :: r) bump (.ok (some c, r)) :=
  follows_peek.step ((follows_advance [c] r).step (.pure _))

theorem follows_bump_nil : Follows src [] bump (.ok (none, [])) := follows_peek.step (.pure _)

theorem follows_atEnd : Follows src left atEnd (.ok (decide (left = []), left)) := by
  intro hsrc
  have hend : octets src ≤ octets src - octets left ↔ left = [] := by
    have hle := octets_le_of_suffix hsrc
    constructor
    · intro h
      by_contra hne
      have := octets_tail_lt hne
      omega
    · rintro rfl
      exact Nat.le_refl _
  have hatEnd : atEnd (before hsrc) = .ok (decide (left = []), before hsrc) :=
    congrArg (fun b => Except.ok (b, before hsrc)) (decide_eq_decide.mpr hend)
  rw [hatEnd]
  exact .ok List.suffix_rfl _

theorem follows_expected (what : String) : Follows src left (expected (α := α) what) (.error (.expected what left)) := by
  refine follows_atEnd.step ?_
  cases left with
  | nil => exact fun hsrc => .error fun s hs => Option.some.inj hs ▸ hsrc
  | cons c r => exact follows_here.step fun hsrc => .error fun s hs => Option.some.inj hs ▸ hsrc

/-! ## Loops and calls -/

theorem follows_onward {start : Cursor} {next : (c : Cursor) → c.left < start.left → Except Stop (α × Cursor)}
    {scan : Scan (α × List Char)} (hlt : octets left < start.left)
    (h : ∀ (hsrc : left <:+ src) hlt, Answers src left scan (next (before hsrc) hlt)) : Follows src left (onward start next) scan := by
  intro hsrc
  have hleft : (before hsrc).left < start.left := by rwa [left_before]
  have honward : onward start next (before hsrc) = next (before hsrc) hleft := dif_pos hleft
  rw [honward]
  exact h hsrc hleft

/-- A loop is followed round by round; a round that goes on has left less text. -/
theorem follows_loop {round : σ → Walk (σ ⊕ α)} {s : σ} {scan : Scan ((σ ⊕ α) × List Char)}
    {k : σ → List Char → Scan (α × List Char)} (hround : Follows src left (round s) scan)
    (hnext : ∀ t r, scan = .ok (.inl t, r) → r <:+ left → r.length < left.length ∧ Follows src r (loop round t) (k t r)) :
    Follows src left (loop round s) (scan >>= fun
      | (.inl t, r) => k t r
      | (.inr a, r) => .ok (a, r)) := by
  intro hsrc
  rw [loop]
  refine (hround.bind fun x r hscan hr => ?_) hsrc
  cases x with
  | inr a => exact .pure a
  | inl t =>
    obtain ⟨hlt, hloop⟩ := hnext t r hscan hr
    have hleft : octets r < (before hsrc).left := by
      rw [left_before]
      exact octets_lt_of_suffix hr hlt
    exact follows_onward hleft fun h _ => hloop h

theorem follows_loop_next {round : σ → Walk (σ ⊕ α)} {s t : σ} {r : List Char} {scan : Scan (α × List Char)}
    (hround : Follows src left (round s) (.ok (.inl t, r))) (hlt : r.length < left.length)
    (hloop : Follows src r (loop round t) scan) : Follows src left (loop round s) scan :=
  follows_loop (k := fun _ _ => scan) hround fun t' r' heq _ => by
    obtain ⟨ht, rfl⟩ := Prod.mk.inj (Except.ok.inj heq)
    obtain rfl := Sum.inl.inj ht
    exact ⟨hlt, hloop⟩

theorem follows_loop_done {round : σ → Walk (σ ⊕ α)} {s : σ} {a : α} {r : List Char}
    (hround : Follows src left (round s) (.ok (.inr a, r))) : Follows src left (loop round s) (.ok (a, r)) :=
  follows_loop (k := fun _ _ => .ok (a, r)) hround fun _ _ heq _ => nomatch heq

theorem follows_loop_failed {round : σ → Walk (σ ⊕ α)} {s : σ} {e : Failure} (hround : Follows src left (round s) (.error e)) :
    Follows src left (loop round s) (.error e) :=
  follows_loop (k := fun _ _ => .error e) hround fun _ _ heq _ => nomatch heq

/-- A loop whose round fails or goes on. -/
theorem follows_loop_on {round : σ → Walk (σ ⊕ α)} {s : σ} {scan : Scan (τ × List Char)} {f : τ → σ}
    {k : τ × List Char → Scan (α × List Char)}
    (hround : Follows src left (round s) (do
      let (t, r) ← scan
      return (.inl (f t), r)))
    (hnext : ∀ t r, scan = .ok (t, r) → r <:+ left → r.length < left.length ∧ Follows src r (loop round (f t)) (k (t, r))) :
    Follows src left (loop round s) (scan >>= k) := by
  cases scan with
  | error e => exact follows_loop_failed hround
  | ok step =>
    exact follows_loop (k := fun _ _ => k step) hround fun t' r' heq hr => by
      obtain ⟨ht, rfl⟩ := Prod.mk.inj (Except.ok.inj heq)
      obtain rfl := Sum.inl.inj ht
      exact hnext step.1 step.2 rfl hr

end Cursor

end

end PatternCatalog.Markup
