import ExecutionControl.Proofs.PlainStore

/-! # Lazy expiry cannot be observed

    Entries stay in the coordination store beyond their deadline, until a write meets them.
    Nobody can tell: its answers to any calls, at times that do not run backwards, are those
    of a store that removes every entry as soon as its deadline is reached
    (`lazy_expiry_unobservable`).

    Both stores hold the same live entries at all times (`Shadows`). What the plain store
    holds before a call, once it has removed what is over, is what the coordination store
    finds live (`Mirrors`), so that each kind of call reads the same and writes the same
    (`Mirrors.carryOut`).
-/

namespace ExecutionControl

variable {s : CoordStore} {r : PlainStore} {now later : Moment} {key : String} {e : Entry}

/-! ### Live entries -/

theorem Entry.isLive_eq_all (e : Entry) (now : Moment) :
    e.isLive now = e.deadline.all fun t => decide (now < t) := by
  unfold isLive
  cases e.deadline <;> rfl

/-- What is live later is live now. -/
theorem filter_isLive_later (o : Option Entry) (h : now ≤ later) :
    (o.filter fun e => e.isLive now).filter (fun e => e.isLive later) =
      o.filter fun e => e.isLive later := by
  rw [Option.filter_filter]
  congr 1
  funext e
  cases hlater : e.isLive later with
  | false => exact Bool.and_false _
  | true => rw [Entry.isLive_of_le h hlater, Bool.and_true]

theorem PlainStore.getElem?_expel :
    (r.expel now).entries[key]? = r.entries[key]?.filter fun e => e.isLive now := by
  simp only [expel, Std.ExtTreeMap.getElem?_filter', Entry.isLive_eq_all]

/-- The two stores hold the same live entries. -/
structure Shadows (s : CoordStore) (r : PlainStore) (now : Moment) : Prop where
  available : s.available = r.available
  patternDelete : s.patternDelete = r.patternDelete
  entries : ∀ key, s.live? now key = r.entries[key]?.filter fun e => e.isLive now

/-- All that the plain store holds is what is live in the other one. -/
structure Mirrors (s : CoordStore) (r : PlainStore) (now : Moment) : Prop where
  available : s.available = r.available
  patternDelete : s.patternDelete = r.patternDelete
  entries : ∀ key, s.live? now key = r.entries[key]?

namespace Shadows

/-- The same entries are live in both as long as nothing is written. -/
theorem at_later (h : Shadows s r now) (hlater : now ≤ later) : Shadows s r later where
  available := h.available
  patternDelete := h.patternDelete
  entries key := by
    have hnow := h.entries key
    unfold CoordStore.live? at hnow ⊢
    rw [← filter_isLive_later _ hlater, hnow, filter_isLive_later _ hlater]

/-- Once what is over is removed, all that is left is live. -/
theorem expel (h : Shadows s r now) : Mirrors s (r.expel now) now where
  available := h.available
  patternDelete := h.patternDelete
  entries key := by rw [PlainStore.getElem?_expel, h.entries key]

theorem put (h : Shadows s r now) (key : String) (e : Entry) :
    Shadows (s.put key e) (r.put key e) now where
  available := h.available
  patternDelete := h.patternDelete
  entries k := by
    by_cases hk : k = key
    · subst hk
      simp [CoordStore.live?, PlainStore.put]
    · have hkey : r.entries[k]? = (r.put key e).entries[k]? := by
        simp [PlainStore.put, Std.ExtTreeMap.getElem?_insert, Ne.symm hk]
      rw [CoordStore.live?, CoordStore.entries_put_of_ne hk, ← hkey]
      exact h.entries k

theorem drop (h : Shadows s r now) (key : String) : Shadows (s.drop key) (r.drop key) now where
  available := h.available
  patternDelete := h.patternDelete
  entries k := by
    by_cases hk : k = key
    · subst hk
      simp [CoordStore.live?, PlainStore.drop]
    · have hkey : r.entries[k]? = (r.drop key).entries[k]? := by
        simp [PlainStore.drop, Std.ExtTreeMap.getElem?_erase, Ne.symm hk]
      rw [CoordStore.live?, CoordStore.entries_drop_of_ne hk, ← hkey]
      exact h.entries k

/-- To drop what is over changes nothing that is live. -/
theorem drop_over (h : Shadows s r now) (hover : s.live? now key = none) :
    Shadows (s.drop key) r now where
  available := h.available
  patternDelete := h.patternDelete
  entries k := by
    rw [← h.entries k]
    by_cases hk : k = key
    · subst hk
      rw [hover]
      simp [CoordStore.live?]
    · rw [CoordStore.live?, CoordStore.entries_drop_of_ne hk]
      rfl

theorem settle (h : Shadows s r now) : Shadows (s.settle now key) r now := by
  unfold CoordStore.settle
  by_cases hlive : (s.live? now key).isSome
  · rw [if_pos hlive]
    exact h
  · rw [if_neg hlive]
    exact h.drop_over (by simpa using hlive)

end Shadows

/-! ### What is read and written -/

namespace Mirrors

theorem shadows (h : Mirrors s r now) : Shadows s r now where
  available := h.available
  patternDelete := h.patternDelete
  entries key := by
    rw [← h.entries key]
    unfold CoordStore.live?
    rw [filter_isLive_later _ (Nat.le_refl now)]

theorem datum? (h : Mirrors s r now) (key : String) : s.datum? now key = r.datum? key := by
  unfold CoordStore.datum? PlainStore.datum?
  rw [h.entries key]

theorem deadline? (h : Mirrors s r now) (key : String) :
    s.deadline? now key = r.deadline? key := by
  unfold CoordStore.deadline? PlainStore.deadline?
  rw [h.entries key]

theorem members (h : Mirrors s r now) (key : String) : s.members now key = r.members key := by
  have hd : s.datum? now key = r.datum? key := h.datum? key
  unfold CoordStore.members PlainStore.members
  cases hr : r.datum? key with
  | none => simp only [hd, hr]
  | some d => cases d <;> simp only [hd, hr]

theorem hash (h : Mirrors s r now) (key : String) : s.hash now key = r.hash key := by
  have hd : s.datum? now key = r.datum? key := h.datum? key
  unfold CoordStore.hash PlainStore.hash
  cases hr : r.datum? key with
  | none => simp only [hd, hr]
  | some d => cases d <;> simp only [hd, hr]

theorem isSome_live? (h : Mirrors s r now) (key : String) :
    (s.live? now key).isSome = r.entries.contains key := by
  rw [h.entries key, Std.ExtTreeMap.contains_eq_isSome_getElem?]

/-- The live entries of one store are all entries of the other. -/
theorem filter_isLive (h : Mirrors s r now) :
    (s.entries.filter fun _ e => e.isLive now) = r.entries := by
  refine Std.ExtTreeMap.ext_getElem? fun key => ?_
  rw [Std.ExtTreeMap.getElem?_filter', ← h.entries key]
  rfl

theorem putMembers (h : Mirrors s r now) (key : String) (m : Members) :
    Shadows (s.putMembers now key m) (r.putMembers key m) now := by
  unfold CoordStore.putMembers PlainStore.putMembers
  rw [h.deadline? key]
  split
  · exact h.shadows.drop key
  · exact h.shadows.put key _

theorem putHash (h : Mirrors s r now) (key : String) (f : Fields) :
    Shadows (s.putHash now key f) (r.putHash key f) now := by
  unfold CoordStore.putHash PlainStore.putHash
  rw [h.deadline? key]
  exact h.shadows.put key _

/-- The live keys that match a pattern are all keys that do. -/
theorem filter_isMatch (h : Mirrors s r now) (pattern : String) :
    (s.entries.filter fun key e => e.isLive now && Glob.isMatch pattern key) =
      r.entries.filter fun key _ => Glob.isMatch pattern key := by
  rw [← h.filter_isLive]
  refine Std.ExtTreeMap.ext_getElem? fun key => ?_
  simp only [Std.ExtTreeMap.getElem?_filter', Option.filter_filter]

/-- To remove the live keys that match a pattern leaves what is live and does not. -/
theorem remove_isMatch (h : Mirrors s r now) (pattern : String) :
    Shadows
      { s with
        entries := s.entries.filter fun key e => !(e.isLive now && Glob.isMatch pattern key) }
      { r with entries := r.entries.filter fun key _ => !Glob.isMatch pattern key } now where
  available := h.available
  patternDelete := h.patternDelete
  entries key := by
    have hentry : r.entries[key]? = s.entries[key]?.filter fun e => e.isLive now :=
      (h.entries key).symm
    simp only [CoordStore.live?, Std.ExtTreeMap.getElem?_filter', hentry, Option.filter_filter]
    congr 1
    funext e
    cases e.isLive now <;> simp

end Mirrors

/-! ### Single calls -/

/-- Both stores give the same answer and hold the same live entries after it, or both
    overflow. -/
def Agree {α : Type} (now : Moment) :
    Checked (CoordStore.Answer α) → Checked (PlainStore.Answer α) → Prop
  | .ok (answer, s), .ok (answer', r) => answer = answer' ∧ Shadows s r now
  | .error o, .error o' => o = o'
  | _, _ => False

/-- A new deadline overflows in both stores or in neither. -/
theorem Agree.map {α β : Type} {x : Checked β} {f : β → CoordStore.Answer α}
    {g : β → PlainStore.Answer α} (h : ∀ b, Agree now (.ok (f b)) (.ok (g b))) :
    Agree now (x.map f) (x.map g) := by
  cases x with
  | ok b => exact h b
  | error o => exact rfl

theorem PlainStore.carryOut_memberEdit {call : CoordCall} {edit : Members → call.Result × Members}
    (hedit : CoordStore.memberEdit? call = some edit) :
    r.carryOut now call = .ok (match r.members call.subject with
      | .error e => (.error e, r)
      | .ok m => (.ok (edit m).1, r.putMembers call.subject (edit m).2)) := by
  cases call with
  | addMember | removeMember | removeScores =>
    cases hedit
    simp only [carryOut, CoordCall.subject]
    cases r.members _ <;> rfl
  | _ => cases hedit

/-- Both stores find the same members and make the same edit. -/
theorem Mirrors.carryOut_memberEdit {call : CoordCall}
    {edit : Members → call.Result × Members} (h : Mirrors s r now)
    (havailable : s.available = true) (hedit : CoordStore.memberEdit? call = some edit) :
    Agree now (s.perform now call) (r.carryOut now call) := by
  rw [CoordStore.perform_memberEdit hedit havailable, PlainStore.carryOut_memberEdit hedit,
    h.members call.subject]
  cases r.members call.subject with
  | error e => exact ⟨rfl, h.shadows⟩
  | ok m => exact ⟨rfl, h.putMembers call.subject _⟩

/-- A call to a store that can be reached. -/
theorem Mirrors.carryOut (h : Mirrors s r now) (havailable : s.available = true)
    (call : CoordCall) : Agree now (s.perform now call) (r.carryOut now call) := by
  have hsame := h.shadows
  -- In every case both read the same, so that they answer alike and write the same.
  cases call with
  | addMember | removeMember | removeScores => exact h.carryOut_memberEdit havailable rfl
  | cardinality key =>
    simp only [CoordStore.perform, CoordStore.cardinality, CoordStore.whenAvailable, havailable,
      if_true, PlainStore.carryOut, h.members key]
    exact ⟨rfl, hsame⟩
  | setFields key fields =>
    simp only [CoordStore.perform, CoordStore.setFields, CoordStore.whenAvailable, havailable,
      if_true, PlainStore.carryOut, h.hash key]
    cases r.hash key with
    | error e => exact ⟨rfl, hsame⟩
    | ok f => exact ⟨rfl, h.putHash key _⟩
  | setNewField key field value =>
    simp only [CoordStore.perform, CoordStore.setNewField, CoordStore.whenAvailable, havailable,
      if_true, PlainStore.carryOut, h.hash key]
    cases r.hash key with
    | error e => exact ⟨rfl, hsame⟩
    | ok f =>
      by_cases hfield : f.contains field
      · simp only [hfield, if_true]
        exact ⟨rfl, hsame⟩
      · simp only [hfield, Bool.false_eq_true, if_false]
        exact ⟨rfl, h.putHash key _⟩
  | getFields key =>
    simp only [CoordStore.perform, CoordStore.getFields, CoordStore.whenAvailable, havailable,
      if_true, PlainStore.carryOut, h.hash key]
    exact ⟨rfl, hsame⟩
  | increment key field delta =>
    simp only [CoordStore.perform, CoordStore.increment, havailable, if_true,
      PlainStore.carryOut, h.hash key]
    cases r.hash key with
    | error e => exact ⟨rfl, hsame⟩
    | ok f =>
      cases hcounter : CoordStore.counter f key field with
      | error e =>
        simp only [hcounter]
        exact ⟨rfl, hsame⟩
      | ok n =>
        simp only [hcounter]
        by_cases hfits : CoordStore.fitsInt64 (n + delta)
        · simp only [hfits, if_true]
          exact ⟨rfl, h.putHash key _⟩
        · simp only [hfits, Bool.false_eq_true, if_false]
          exact rfl
  | getText key =>
    simp only [CoordStore.perform, CoordStore.getText, CoordStore.whenAvailable, havailable,
      if_true, PlainStore.carryOut, h.datum? key]
    cases r.datum? key with
    | none => exact ⟨rfl, hsame⟩
    | some d => cases d <;> exact ⟨rfl, hsame⟩
  | setText key value ttl =>
    simp only [CoordStore.perform, CoordStore.setText, havailable, if_true, PlainStore.carryOut]
    exact Agree.map fun deadline => ⟨rfl, hsame.put key _⟩
  | delete key =>
    simp only [CoordStore.perform, CoordStore.delete, CoordStore.whenAvailable, havailable,
      if_true, PlainStore.carryOut, h.isSome_live? key]
    exact ⟨rfl, hsame.drop key⟩
  | expire key ttl =>
    simp only [CoordStore.perform, CoordStore.expire, havailable, if_true, PlainStore.carryOut]
    cases hlive : s.live? now key with
    | none =>
      rw [h.entries key] at hlive
      simp only [hlive]
      -- One drops what it finds over, where the other has nothing any more.
      exact ⟨rfl, hsame.drop_over ((h.entries key).trans hlive)⟩
    | some e =>
      rw [h.entries key] at hlive
      simp only [hlive]
      exact Agree.map fun t => ⟨rfl, hsame.put key _⟩
  | deletePattern pattern =>
    simp only [CoordStore.perform, CoordStore.deletePattern, CoordStore.whenAvailable, havailable,
      if_true, PlainStore.carryOut, h.patternDelete]
    by_cases hpattern : r.patternDelete
    · simp only [hpattern, if_true, h.filter_isMatch pattern]
      refine ⟨rfl, ?_⟩
      have hremoved := h.remove_isMatch pattern
      rw [h.patternDelete, hpattern, havailable] at hremoved
      exact hremoved
    · simp only [hpattern, Bool.false_eq_true, if_false]
      exact ⟨rfl, hsame⟩
  | scan start =>
    simp only [CoordStore.perform, CoordStore.scan_eq, CoordStore.whenAvailable, havailable,
      if_true, PlainStore.carryOut, h.filter_isLive]
    exact ⟨rfl, hsame⟩
  | tryLock key token ttl =>
    simp only [CoordStore.perform, CoordStore.tryLock, havailable, if_true, PlainStore.carryOut,
      h.isSome_live? key]
    by_cases hheld : r.entries.contains key
    · simp only [hheld, if_true]
      exact ⟨rfl, hsame⟩
    · simp only [hheld, Bool.false_eq_true, if_false]
      exact Agree.map fun t => ⟨rfl, hsame.put key _⟩
  | unlock key token =>
    simp only [CoordStore.perform, CoordStore.unlock, CoordStore.whenAvailable, havailable,
      if_true, PlainStore.carryOut, CoordStore.isHeldBy, h.datum? key]
    cases r.datum? key with
    | none => exact ⟨rfl, hsame.settle⟩
    | some d =>
      cases d with
      | text holder =>
        by_cases hholder : holder == token
        · simp only [hholder, if_true]
          exact ⟨rfl, hsame.drop key⟩
        · simp only [hholder, Bool.false_eq_true, if_false]
          exact ⟨rfl, hsame.settle⟩
      | hash f => exact ⟨rfl, hsame.settle⟩
      | sortedSet m => exact ⟨rfl, hsame.settle⟩

/-- The two stores answer every call alike. -/
theorem Shadows.serve (h : Shadows s r now) (call : CoordCall) :
    Agree now (s.perform now call) (r.serve now call) := by
  have hmirrors := h.expel
  unfold PlainStore.serve PlainStore.perform
  cases havailable : s.available with
  | false =>
    rw [← hmirrors.available, havailable, CoordStore.perform_unreachable havailable]
    exact ⟨rfl, hmirrors.shadows⟩
  | true =>
    rw [← hmirrors.available, havailable, if_pos rfl]
    exact hmirrors.carryOut havailable call

/-! ### Sequences of calls -/

/-- What the calls of a sequence are answered, at the times at which they are made. A call
    that overflows changes nothing. -/
def transcript {σ : Type}
    (perform : σ → Moment → (call : CoordCall) → Checked (Except CoordError call.Result × σ)) :
    List (Moment × CoordCall) → σ →
      List ((call : CoordCall) × Checked (Except CoordError call.Result))
  | [], _ => []
  | (now, call) :: calls, s =>
    match perform s now call with
    | .ok (answer, s') => ⟨call, .ok answer⟩ :: transcript perform calls s'
    | .error o => ⟨call, .error o⟩ :: transcript perform calls s

theorem Shadows.transcript_eq {calls : List (Moment × CoordCall)} (h : Shadows s r now)
    (hfrom : ∀ c ∈ calls, now ≤ c.1) (hcalls : calls.Pairwise fun c d => c.1 ≤ d.1) :
    transcript CoordStore.perform calls s = transcript PlainStore.serve calls r := by
  induction calls generalizing s r now with
  | nil => rfl
  | cons c calls ih =>
    obtain ⟨time, call⟩ := c
    obtain ⟨hfirst, hrest⟩ := List.pairwise_cons.mp hcalls
    have hlater : Shadows s r time := h.at_later (hfrom _ List.mem_cons_self)
    have hagree := hlater.serve call
    unfold transcript
    generalize s.perform time call = x at hagree ⊢
    generalize r.serve time call = y at hagree ⊢
    match x, y with
    | .ok (answer, s'), .ok (answer', r') =>
      obtain ⟨rfl, hafter⟩ := hagree
      exact congrArg _ (ih hafter hfirst hrest)
    | .error o, .error o' =>
      obtain rfl : o = o' := hagree
      exact congrArg _ (ih hlater hfirst hrest)
    | .ok _, .error _ => exact hagree.elim
    | .error _, .ok _ => exact hagree.elim

/-- The plain store with the entries of the coordination store. -/
def CoordStore.toPlain (s : CoordStore) : PlainStore := ⟨s.entries, s.available, s.patternDelete⟩

theorem CoordStore.shadows_toPlain (s : CoordStore) (now : Moment) : Shadows s s.toPlain now :=
  ⟨rfl, rfl, fun _ => rfl⟩

/-- Whatever the store holds at first, nothing at all in particular, its answers to calls at
    times that do not run backwards are those of a store that removes what is over before each
    of them; and an entry that is over makes no difference to them. -/
theorem lazy_expiry_unobservable (s : CoordStore) (calls : List (Moment × CoordCall))
    (hcalls : calls.Pairwise fun c d => c.1 ≤ d.1) :
    transcript CoordStore.perform calls s = transcript PlainStore.serve calls s.toPlain ∧
      ∀ key, (∀ c ∈ calls, s.live? c.1 key = none) →
        transcript CoordStore.perform calls s =
          transcript CoordStore.perform calls (s.drop key) := by
  have hplain : ∀ now, Shadows s s.toPlain now := s.shadows_toPlain
  refine ⟨(hplain 0).transcript_eq (fun c _ => Nat.zero_le c.1) hcalls, fun key hover => ?_⟩
  cases calls with
  | nil => rfl
  | cons c calls =>
    have hfrom : ∀ d ∈ c :: calls, c.1 ≤ d.1 := by
      intro d hd
      rcases List.mem_cons.mp hd with rfl | hd
      · exact Nat.le_refl _
      · exact (List.pairwise_cons.mp hcalls).1 d hd
    -- With the entry or without it, the store holds what the plain store holds.
    have hdropped := (hplain c.1).drop_over (hover c List.mem_cons_self)
    rw [(hplain c.1).transcript_eq hfrom hcalls, hdropped.transcript_eq hfrom hcalls]

/-- A lock is taken for a second; once it is over, a sorted set is started under its key. -/
def lockOver : List (Moment × CoordCall) :=
  [(0, .tryLock "k" "a" (.seconds 1)), ((Duration.seconds 1).nanos, .addMember "k" "m" 1.0)]

theorem lazy_expiry_unobservable_lock :
    lockOver.Pairwise (fun c d => c.1 ≤ d.1) ∧
      transcript CoordStore.perform lockOver {} = transcript PlainStore.serve lockOver {} ∧
      transcript CoordStore.perform lockOver {} =
        [⟨.tryLock "k" "a" (.seconds 1), .ok (.ok true)⟩,
          ⟨.addMember "k" "m" 1.0, .ok (.ok true)⟩] := by
  have hcalls : lockOver.Pairwise fun c d => c.1 ≤ d.1 := by decide
  exact ⟨hcalls, (lazy_expiry_unobservable {} lockOver hcalls).1, rfl⟩

end ExecutionControl
