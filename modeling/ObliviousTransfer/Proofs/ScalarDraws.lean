import Mathlib
import ObliviousTransfer.Proofs.Draws

/-!
# Draws of scalars

A scalar is searched for in the stream, 32 bytes at a time. A search that has to find a scalar other
than zero goes through zeros and through numbers that are too large alike: it ends behind the first
acceptable candidate, or it has looked at as many candidates as it may and none of them was
acceptable (`run_nonzeroWithin`).

A computation makes demands of its source, one after the other: requests for bytes, and such
searches. `Draw.Finds` says that it ends well or the source is to blame for the fault:
`Source.Causes` names the demand that is not met, at the place of the stream where it is made. A
search that looks at an acceptable candidate is no such demand (`Source.not_lacks_search`). The
statement about a whole computation is put together from those about its parts (`finds_bind`).
-/

namespace ObliviousTransfer

variable {σ : Type} [ByteStream σ]

/-! ## The candidates of a stream -/

/-- The candidate with a given number, counted from a position in the stream. -/
def candidate (s : σ) (k : Nat) : Bytes :=
  (ByteStream.take 32 (ByteStream.skip (32 * k) s)).1

/-- The candidate writes a scalar other than zero. -/
def Acceptable (bytes : Bytes) : Prop :=
  ∃ s, Scalar.ofBytes? bytes = some s ∧ s ≠ 0

theorem not_acceptable_of_none {bytes : Bytes} (h : Scalar.ofBytes? bytes = none) :
    ¬Acceptable bytes := by
  rintro ⟨s, hs, -⟩
  cases h.symm.trans hs

theorem not_acceptable_of_zero {bytes : Bytes} (h : Scalar.ofBytes? bytes = some 0) :
    ¬Acceptable bytes := by
  rintro ⟨s, hs, hne⟩
  exact hne (Option.some.inj (h.symm.trans hs)).symm

theorem candidate_advance (source : Source σ) (m k : Nat) :
    candidate (source.advance (32 * m)).stream k = candidate source.stream (m + k) := by
  rw [Source.advance, candidate, candidate, ← ByteStream.skip_add, ← Nat.mul_add]

theorem advance_candidates (source : Source σ) (m n : Nat) :
    (source.advance (32 * m)).advance (32 * n) = source.advance (32 * (m + n)) := by
  rw [Source.advance_advance, Nat.mul_add]

/-- What holds of the first candidates and of those behind them. -/
theorem forall_candidate_lt_add (p : Bytes → Prop) {source : Source σ} {m n : Nat}
    (hfirst : ∀ k < m, p (candidate source.stream k))
    (hbehind : ∀ k < n, p (candidate (source.advance (32 * m)).stream k)) :
    ∀ k < m + n, p (candidate source.stream k) := by
  intro k hk
  by_cases hm : k < m
  · exact hfirst k hm
  · have hindex : m + (k - m) = k := Nat.add_sub_cancel' (Nat.not_lt.1 hm)
    have hcandidate := hbehind (k - m) (by omega)
    rwa [candidate_advance, hindex] at hcandidate

namespace Draw

/-! ## Searches -/

theorem run_scalarWithin_of_some (candidates : Nat) {source : Source σ} {s : Scalar}
    (h : Scalar.ofBytes? (candidate source.stream 0) = some s) :
    (scalarWithin (candidates + 1) : Draw σ Scalar).run.run source =
      (.ok s, source.advance (32 * 1)) := by
  rw [scalarWithin, run_bind (run_bytes 32 source)]
  simp only [show Scalar.ofBytes? (ByteStream.take 32 source.stream).1 = some s from h]
  rfl

theorem run_scalarWithin_of_none (candidates : Nat) {source : Source σ}
    (h : Scalar.ofBytes? (candidate source.stream 0) = none) :
    (scalarWithin (candidates + 1) : Draw σ Scalar).run.run source =
      (scalarWithin candidates : Draw σ Scalar).run.run (source.advance (32 * 1)) := by
  rw [scalarWithin, run_bind (run_bytes 32 source)]
  simp only [show Scalar.ofBytes? (ByteStream.take 32 source.stream).1 = none from h]

/-- A search for any scalar ends behind the first number below the order, or has refused all
candidates. -/
theorem run_scalarWithin (candidates : Nat) (source : Source σ) :
    (∃ m s, (scalarWithin candidates : Draw σ Scalar).run.run source =
        (.ok s, source.advance (32 * (m + 1))) ∧
      Scalar.ofBytes? (candidate source.stream m) = some s ∧
      ∀ k < m, Scalar.ofBytes? (candidate source.stream k) = none) ∨
    (∃ rest, (scalarWithin candidates : Draw σ Scalar).run.run source = (.error .exhausted, rest) ∧
      ∀ k < candidates, Scalar.ofBytes? (candidate source.stream k) = none) := by
  induction candidates generalizing source with
  | zero => exact Or.inr ⟨source, rfl, fun k hk => absurd hk (Nat.not_lt_zero k)⟩
  | succ candidates ih =>
    cases hfirst : Scalar.ofBytes? (candidate source.stream 0) with
    | some s =>
      have hrun := run_scalarWithin_of_some candidates hfirst
      exact Or.inl ⟨0, s, hrun, hfirst, fun k hk => absurd hk (Nat.not_lt_zero k)⟩
    | none =>
      have hrun := run_scalarWithin_of_none candidates hfirst
      have hrefused : ∀ k < 1, Scalar.ofBytes? (candidate source.stream k) = none := by
        intro k hk
        rwa [Nat.lt_one_iff.1 hk]
      rcases ih (source.advance (32 * 1)) with ⟨m, s, hs, hfound, hnone⟩ | ⟨rest, hs, hnone⟩
      · rw [advance_candidates, ← Nat.add_assoc] at hs
        rw [candidate_advance] at hfound
        exact Or.inl ⟨1 + m, s, hrun.trans hs, hfound,
          forall_candidate_lt_add (Scalar.ofBytes? · = none) hrefused hnone⟩
      · have hall := forall_candidate_lt_add (Scalar.ofBytes? · = none) hrefused hnone
        rw [Nat.add_comm] at hall
        exact Or.inr ⟨rest, hrun.trans hs, hall⟩

theorem run_scalar (source : Source σ) :
    (scalar : Draw σ Scalar).run.run source =
      (scalarWithin source.patience : Draw σ Scalar).run.run source := rfl

theorem run_nonzeroScalar (source : Source σ) :
    (nonzeroScalar : Draw σ Scalar).run.run source =
      (nonzeroWithin source.patience : Draw σ Scalar).run.run source := rfl

/-- A search for a scalar other than zero ends behind the first acceptable candidate, or has looked
at as many as it may in vain. -/
theorem run_nonzeroWithin (candidates : Nat) (source : Source σ) :
    (∃ m s, (nonzeroWithin candidates : Draw σ Scalar).run.run source =
        (.ok s, source.advance (32 * (m + 1))) ∧
      Scalar.ofBytes? (candidate source.stream m) = some s ∧ s ≠ 0 ∧
      ∀ k < m, ¬Acceptable (candidate source.stream k)) ∨
    (∃ rest, (nonzeroWithin candidates : Draw σ Scalar).run.run source = (.error .exhausted, rest) ∧
      ∀ k < candidates, k < source.patience → ¬Acceptable (candidate source.stream k)) := by
  induction candidates generalizing source with
  | zero => exact Or.inr ⟨source, rfl, fun k hk => absurd hk (Nat.not_lt_zero k)⟩
  | succ candidates ih =>
    rcases run_scalarWithin source.patience source with
      ⟨m, s, hs, hfound, hnone⟩ | ⟨rest, hs, hnone⟩
    · have hrun : (nonzeroWithin (candidates + 1) : Draw σ Scalar).run.run source =
          (if s = 0 then nonzeroWithin candidates else return s : Draw σ Scalar).run.run
            (source.advance (32 * (m + 1))) := by
        rw [nonzeroWithin, run_bind ((run_scalar source).trans hs)]
      have hrefused : ∀ k < m, ¬Acceptable (candidate source.stream k) :=
        fun k hk => not_acceptable_of_none (hnone k hk)
      by_cases hzero : s = 0
      · rw [if_pos hzero] at hrun
        subst hzero
        -- the zero is one more candidate that is refused
        have hfirst : ∀ k < m + 1, ¬Acceptable (candidate source.stream k) :=
          Nat.forall_lt_succ_right.2 ⟨hrefused, not_acceptable_of_zero hfound⟩
        rcases ih (source.advance (32 * (m + 1))) with
          ⟨n, s, hs', hfound', hne, hrefused'⟩ | ⟨rest, hs', hrefused'⟩
        · rw [advance_candidates, ← Nat.add_assoc] at hs'
          rw [candidate_advance] at hfound'
          exact Or.inl ⟨m + 1 + n, s, hrun.trans hs', hfound', hne,
            forall_candidate_lt_add (¬Acceptable ·) hfirst hrefused'⟩
        · refine Or.inr ⟨rest, hrun.trans hs', fun k hk hpatience => ?_⟩
          have hbehind : ∀ k < min candidates source.patience,
              ¬Acceptable (candidate (source.advance (32 * (m + 1))).stream k) :=
            fun k hk => hrefused' k (lt_min_iff.1 hk).1 (lt_min_iff.1 hk).2
          exact forall_candidate_lt_add (¬Acceptable ·) hfirst hbehind k (by omega)
      · rw [if_neg hzero] at hrun
        exact Or.inl ⟨m, s, hrun, hfound, hzero, hrefused⟩
    · exact Or.inr ⟨rest, run_bind_error ((run_scalar source).trans hs),
        fun k _ hk => not_acceptable_of_none (hnone k hk)⟩

/-- A search that may look at the first acceptable candidate ends right behind it. -/
theorem run_nonzeroScalar_of_first (source : Source σ) {m : Nat} {value : Scalar}
    (hvalue : Scalar.ofBytes? (candidate source.stream m) = some value) (hne : value ≠ 0)
    (hfirst : ∀ k < m, ¬Acceptable (candidate source.stream k)) (hpatience : m < source.patience) :
    (nonzeroScalar : Draw σ Scalar).run.run source =
      (.ok value, source.advance (32 * (m + 1))) := by
  rw [run_nonzeroScalar]
  rcases run_nonzeroWithin source.patience source with
    ⟨n, found, hrun, hfound, hfoundne, hrefused⟩ | ⟨rest, -, hrefused⟩
  · -- neither of two first candidates comes before the other
    obtain rfl : n = m := by
      refine Nat.le_antisymm (Nat.not_lt.1 fun hlt => ?_) (Nat.not_lt.1 fun hlt => ?_)
      · exact hrefused m hlt ⟨value, hvalue, hne⟩
      · exact hfirst n hlt ⟨found, hfound, hfoundne⟩
    rw [hrun, Option.some.inj (hfound.symm.trans hvalue)]
  · exact absurd ⟨value, hvalue, hne⟩ (hrefused m hpatience hpatience)

end Draw

/-! ## What is asked of a source -/

/-- What a computation asks of its source. -/
inductive Demand where
  /-- A request for a number of bytes. -/
  | request (count : Nat)
  /-- A search for a scalar other than zero. -/
  | search

namespace Source

/-- The source meets a demand, and `rest` is what that leaves of it: a request takes its bytes and
uses up the pending failures, and a search ends right behind the first acceptable candidate. -/
def Meets (source : Source σ) (demand : Demand) (rest : Source σ) : Prop :=
  match demand with
  | .request count =>
    source.failures < maxAttempts ∧ rest = { source.advance count with failures := 0 }
  | .search => ∃ m, Acceptable (candidate source.stream m) ∧
    (∀ k < m, ¬Acceptable (candidate source.stream k)) ∧ rest = source.advance (32 * (m + 1))

/-- The source does not meet a demand, which ends with the fault: it fails as often as a request is
repeated, or none of the candidates that a search has to look at from here on is acceptable. -/
def Lacks (source : Source σ) (demand : Demand) (fault : Fault) : Prop :=
  match demand with
  | .request _ => fault = .sourceFailed ∧ maxAttempts ≤ source.failures
  | .search => fault = .exhausted ∧
    ∀ k < source.patience, ¬Acceptable (candidate source.stream k)

/-- The source meets the demands one after the other, each with what the demands before it have
left. -/
def MeetsAll (source : Source σ) (demands : List Demand) (rest : Source σ) : Prop :=
  match demands with
  | [] => rest = source
  | demand :: demands => ∃ middle, source.Meets demand middle ∧ middle.MeetsAll demands rest

/-- The source is to blame for a fault: it meets some of the demands, and what is left of it does
not meet the next one. -/
def Causes (source : Source σ) (demands : List Demand) (fault : Fault) : Prop :=
  ∃ met demand later middle, demands = met ++ demand :: later ∧ source.MeetsAll met middle ∧
    middle.Lacks demand fault

variable {source middle rest : Source σ} {demand : Demand} {demands later : List Demand}
  {fault : Fault}

theorem meetsAll_singleton_iff : source.MeetsAll [demand] rest ↔ source.Meets demand rest := by
  constructor
  · rintro ⟨middle, hmeets, rfl⟩
    exact hmeets
  · exact fun hmeets => ⟨rest, hmeets, rfl⟩

theorem MeetsAll.append (h : source.MeetsAll demands middle) (hlater : middle.MeetsAll later rest) :
    source.MeetsAll (demands ++ later) rest := by
  induction demands generalizing source with
  | nil =>
    obtain rfl : middle = source := h
    exact hlater
  | cons demand demands ih =>
    obtain ⟨next, hmeets, hrest⟩ := h
    exact ⟨next, hmeets, ih hrest⟩

/-- A search does not fail if it looks at an acceptable candidate. -/
theorem not_lacks_search {m : Nat} (hacceptable : Acceptable (candidate source.stream m))
    (hpatience : m < source.patience) : ¬source.Lacks .search fault :=
  fun hlacks => hlacks.2 m hpatience hacceptable

theorem Lacks.causes (h : source.Lacks demand fault) : source.Causes [demand] fault :=
  ⟨[], demand, [], source, rfl, rfl, h⟩

/-- A fault that comes before further demands are made. -/
theorem Causes.append_right (h : source.Causes demands fault) (later : List Demand) :
    source.Causes (demands ++ later) fault := by
  obtain ⟨met, demand, missed, middle, rfl, hmet, hlacks⟩ := h
  exact ⟨met, demand, missed ++ later, middle, by simp, hmet, hlacks⟩

/-- A fault that comes after demands that are met. -/
theorem MeetsAll.causes_append (h : source.MeetsAll demands middle)
    (hlater : middle.Causes later fault) : source.Causes (demands ++ later) fault := by
  obtain ⟨met, demand, missed, last, rfl, hmet, hlacks⟩ := hlater
  exact ⟨demands ++ met, demand, missed, last, by simp, h.append hmet, hlacks⟩

end Source

/-! ## Computations that draw -/

namespace Draw

variable {α β : Type} {demands later : List Demand}

/-- The computation makes the demands of its source, in this order. It returns a value with the
property and has taken what met them, or it ends with a fault for which its source is to blame. -/
def Finds (x : Draw σ α) (demands : List Demand) (source : Source σ) (property : α → Prop) : Prop :=
  (∃ value rest, x.run.run source = (.ok value, rest) ∧ source.MeetsAll demands rest ∧
    property value) ∨
  ∃ fault rest, x.run.run source = (.error fault, rest) ∧ source.Causes demands fault

/-- A source that is never to blame leaves only one case. -/
theorem exists_run_of_finds {x : Draw σ α} {source : Source σ} {property : α → Prop}
    (h : x.Finds demands source property) (hcauses : ∀ fault, ¬source.Causes demands fault) :
    ∃ value rest, x.run.run source = (.ok value, rest) ∧ property value := by
  rcases h with ⟨value, rest, hrun, -, hvalue⟩ | ⟨fault, -, -, hfault⟩
  · exact ⟨value, rest, hrun, hvalue⟩
  · exact absurd hfault (hcauses fault)

/-- What is returned has the property. -/
theorem Finds.of_run {x : Draw σ α} {source rest : Source σ} {property : α → Prop} {value : α}
    (h : x.Finds demands source property) (hrun : x.run.run source = (.ok value, rest)) :
    property value := by
  rcases h with ⟨found, _, hfound, -, hproperty⟩ | ⟨fault, _, hfault, -⟩
  · obtain rfl : found = value := Except.ok.inj (congrArg Prod.fst (hfound.symm.trans hrun))
    exact hproperty
  · exact nomatch congrArg Prod.fst (hfault.symm.trans hrun)

theorem Finds.mono {x : Draw σ α} {source : Source σ} {p q : α → Prop}
    (h : x.Finds demands source p) (hpq : ∀ value, p value → q value) :
    x.Finds demands source q := by
  rcases h with ⟨value, rest, hrun, hrest, hvalue⟩ | hfault
  · exact Or.inl ⟨value, rest, hrun, hrest, hpq value hvalue⟩
  · exact Or.inr hfault

theorem finds_pure {source : Source σ} {property : α → Prop} {value : α} (h : property value) :
    (pure value : Draw σ α).Finds [] source property :=
  Or.inl ⟨value, source, rfl, rfl, h⟩

/-- What follows may rely on the property of the value, and makes its demands of what is left. -/
theorem finds_bind {x : Draw σ α} {f : α → Draw σ β} {source : Source σ} {middle : α → Prop}
    {property : β → Prop} (hx : x.Finds demands source middle)
    (hf : ∀ value rest, middle value → (f value).Finds later rest property) :
    (x >>= f).Finds (demands ++ later) source property := by
  rcases hx with ⟨value, rest, hrun, hmet, hvalue⟩ | ⟨fault, rest, hrun, hfault⟩
  · rcases hf value rest hvalue with
      ⟨result, rest', hrun', hmet', hresult⟩ | ⟨fault, rest', hrun', hfault⟩
    · exact Or.inl ⟨result, rest', (run_bind hrun).trans hrun', hmet.append hmet', hresult⟩
    · exact Or.inr ⟨fault, rest', (run_bind hrun).trans hrun', hmet.causes_append hfault⟩
  · exact Or.inr ⟨fault, rest, run_bind_error hrun, hfault.append_right later⟩

/-- What is computed from the value makes no more demands. -/
theorem finds_bind_pure {x : Draw σ α} {f : α → β} {source : Source σ} {middle : α → Prop}
    {property : β → Prop} (hx : x.Finds demands source middle)
    (hf : ∀ value, middle value → property (f value)) :
    (x >>= fun value => pure (f value)).Finds demands source property := by
  rw [← List.append_nil demands]
  exact finds_bind hx fun value _ hvalue => finds_pure (hf value hvalue)

theorem finds_filled (count : Nat) (source : Source σ) :
    (filled count : Draw σ Bytes).Finds [.request count] source fun bytes =>
      bytes.length = count := by
  have hrun := run_filled count source
  by_cases h : source.failures < maxAttempts
  · rw [if_pos h] at hrun
    exact Or.inl ⟨_, _, hrun, Source.meetsAll_singleton_iff.2 ⟨h, rfl⟩, ByteStream.length_take ..⟩
  · rw [if_neg h] at hrun
    exact Or.inr ⟨_, _, hrun, Source.Lacks.causes ⟨rfl, Nat.not_lt.1 h⟩⟩

theorem finds_block (source : Source σ) :
    (block : Draw σ Block).Finds [.request 32] source fun _ => True :=
  finds_bind_pure (finds_filled 32 source) fun _ _ => trivial

theorem finds_nonzeroScalar (source : Source σ) :
    (nonzeroScalar : Draw σ Scalar).Finds [.search] source (· ≠ 0) := by
  have hrun := run_nonzeroScalar source
  rcases run_nonzeroWithin source.patience source with
    ⟨m, s, hs, hfound, hne, hrefused⟩ | ⟨rest, hs, hrefused⟩
  · exact Or.inl ⟨s, _, hrun.trans hs,
      Source.meetsAll_singleton_iff.2 ⟨m, ⟨s, hfound, hne⟩, hrefused, rfl⟩, hne⟩
  · exact Or.inr ⟨.exhausted, rest, hrun.trans hs,
      Source.Lacks.causes ⟨rfl, fun k hk => hrefused k hk hk⟩⟩

/-- A list of values is found if each of them is. -/
theorem finds_ofFnM {count : Nat} {f : Fin count → Draw σ α} {demand : Demand} {property : α → Prop}
    (hf : ∀ i source, (f i).Finds [demand] source property) (source : Source σ) :
    (Vector.ofFnM f).Finds (List.replicate count demand) source fun values =>
      ∀ value ∈ values, property value := by
  induction count with
  | zero =>
    rw [Vector.ofFnM_zero]
    exact finds_pure fun value hvalue => absurd hvalue (by simp)
  | succ count ih =>
    rw [Vector.ofFnM_succ, List.replicate_succ']
    refine finds_bind (ih fun i => hf i.castSucc) fun values rest hvalues => ?_
    refine finds_bind_pure (hf (Fin.last count) rest) fun value hvalue a ha => ?_
    rcases Vector.mem_push.1 ha with ha | rfl
    · exact hvalues a ha
    · exact hvalue

end Draw

/-! ## A recorded scalar -/

/-- A tape yields what was recorded before anything else. -/
theorem take_tape (bytes recorded : Bytes) (rest : Shake256.Reader) :
    ByteStream.take bytes.length (Tape.mk (bytes ++ recorded) rest) =
      (bytes, ⟨recorded, rest⟩) := by
  induction bytes with
  | nil => rfl
  | cons byte bytes ih =>
    have hnext : ByteStream.next (Tape.mk (byte :: bytes ++ recorded) rest) =
        (byte, Tape.mk (bytes ++ recorded) rest) := rfl
    rw [List.length_cons, ByteStream.take_succ, hnext, ih]

/-- A recorded scalar is drawn if it is not zero. -/
theorem Draw.run_nonzeroScalar_ofTape {s : Scalar} (hs : s ≠ 0) (seed : Bytes) (failures : Nat) :
    let source := Source.ofTape s.toBytes seed failures
    (nonzeroScalar : Draw Tape Scalar).run.run source = (.ok s, source.advance (32 * 1)) := by
  intro source
  have hbytes : candidate source.stream 0 = s.toBytes := by
    have htake := take_tape s.toBytes [] (Shake256.reader seed)
    rw [Scalar.length_toBytes, List.append_nil] at htake
    exact congrArg Prod.fst htake
  refine run_nonzeroScalar_of_first source ?_ hs (fun k hk => absurd hk (Nat.not_lt_zero k))
    (Nat.succ_pos _)
  rw [hbytes, Scalar.ofBytes?_toBytes]

/-! ## A source without faults -/

/-- The stream that repeats one byte. -/
structure Repeated where
  byte : UInt8

instance : ByteStream Repeated where
  next s := (s.byte, s)

theorem skip_repeated (count : Nat) (s : Repeated) : ByteStream.skip count s = s := by
  induction count with
  | zero => rfl
  | succ count ih => exact ih

/-- The source that repeats one byte and never fails. -/
def Source.repeated (byte : UInt8) : Source Repeated where
  stream := ⟨byte⟩
  taken := 0
  failures := 0
  patience := 1

/-- The demands that such a source meets change only how many bytes have been taken. -/
theorem Source.eq_repeated_of_meetsAll {byte : UInt8} {demands : List Demand}
    {source rest : Source Repeated}
    (hsource : source = { repeated byte with taken := source.taken })
    (h : source.MeetsAll demands rest) : rest = { repeated byte with taken := rest.taken } := by
  induction demands generalizing source with
  | nil =>
    obtain rfl : rest = source := h
    exact hsource
  | cons demand demands ih =>
    obtain ⟨middle, hmeets, hrest⟩ := h
    refine ih ?_ hrest
    rw [hsource] at hmeets
    cases demand with
    | request count =>
      obtain ⟨-, rfl⟩ := hmeets
      rw [advance, skip_repeated]
      rfl
    | search =>
      obtain ⟨m, -, -, rfl⟩ := hmeets
      rw [advance, skip_repeated]

/-- If the byte makes an acceptable candidate, no fault can be blamed on the source. -/
theorem Source.not_causes_repeated {byte : UInt8} (h : Acceptable (candidate (Repeated.mk byte) 0))
    (demands : List Demand) (fault : Fault) : ¬(repeated byte).Causes demands fault := by
  rintro ⟨met, demand, later, middle, -, hmet, hlacks⟩
  rw [eq_repeated_of_meetsAll rfl hmet] at hlacks
  cases demand with
  | request count => exact Nat.not_succ_le_zero _ hlacks.2
  | search => exact absurd hlacks (not_lacks_search h Nat.one_pos)

end ObliviousTransfer
