import Mathlib
import ObliviousTransfer.CheckedAccess
import ObliviousTransfer.Proofs.CheckBinding
import ObliviousTransfer.Proofs.IndexedLists
import ObliviousTransfer.Proofs.SetupAgreement

/-!
# Lookups in setups and matrices

The operations of `CheckedAccess` on setups and on extension matrices find everything that they look
up, whatever the message is: messages of a setup have an entry for each base index by their type,
and the rows of a matrix are looked up behind the comparison of its size
(`Correlated.send?_eq_some`).

`Pool.mapRange?_eq_some` is the one lemma about such loops: if each step finds its result in a given
list, then the loop ends with this list.
-/

namespace ObliviousTransfer

open Bits

/-! ## Accesses that succeed -/

/-- A list whose entries are all found is the list of the results. -/
theorem Pool.mapRange?_eq_some {α : Type} (pool : Pool) {count : Nat} {f : Nat → Option α}
    {ys : List α} (hlength : ys.length = count) (h : ∀ i (hi : i < ys.length), f i = some ys[i]) :
    pool.mapRange? count f = some ys := by
  have hsome : (List.range count).map f = ys.map some := by
    apply List.ext_getElem
    · simp [hlength]
    · intro i _ hi
      simpa using h i (by simpa using hi)
  have hys : ys.mapM (id ∘ some) = some (ys.map id) := mapM_eq_some fun _ _ => rfl
  rw [mapRange?, Pool.mapList_eq_map, hsome, List.mapM_map, hys, List.map_id]

/-- The same for a table with an entry for every index. -/
theorem Pool.mapRange?_eq_some_tabulate {α : Type} (pool : Pool) {count : Nat} {f : Nat → Option α}
    {g : Fin count → α} (h : ∀ i : Fin count, f i = some (g i)) :
    pool.mapRange? count f = some (pool.tabulate count g).toList := by
  rw [Pool.tabulate_eq_ofFn, Vector.toList_ofFn]
  refine pool.mapRange?_eq_some List.length_ofFn fun i hi => ?_
  rw [List.length_ofFn] at hi
  rw [List.getElem_ofFn]
  exact h ⟨i, hi⟩

theorem front?_eq_some {α : Type} {count : Nat} {xs : List α} (h : count ≤ xs.length) :
    front? count xs = some (xs.take count) :=
  if_pos h

theorem bit?_eq_some_getElem {bytes : Bytes} {i : Nat} (hi : i < (unpack bytes).length) :
    bit? bytes i = some (unpack bytes)[i] := by
  rw [bit?_eq_some_iff, getElem_unpack, ← length_unpack]
  exact ⟨hi, rfl⟩

namespace BitMatrix

theorem transposeColumn?_eq_some {rows : List Bytes} {c : Nat} (hcount : rows.length = baseCount)
    (hlength : ∀ row ∈ rows, c < row.length) :
    transposeColumn? rows c = some (transposeColumn (rows.map List.toArray).toArray c) := by
  have hentry : ∀ r ∈ List.range securityBytes, ∀ k ∈ List.range 8,
      (do (← rows[8 * r + k]?)[c]?) =
        some (((rows.map List.toArray).toArray.getD (8 * r + k) #[]).getD c 0) := by
    intro r hr k hk
    rw [List.mem_range] at hr hk
    have hrow : 8 * r + k < rows.length := by
      rw [hcount]
      have : securityBytes = 32 := rfl
      have : baseCount = 256 := rfl
      omega
    have hc := hlength _ (List.getElem_mem hrow)
    simp [hrow, hc]
  have hsquare : ∀ r ∈ List.range securityBytes, (do
      let bytes ← (List.range 8).mapM fun k => do (← rows[8 * r + k]?)[c]?
      return transposeSquare (Bytes.toWord64 bytes)) =
        some (transposeSquare (Bytes.toWord64 ((List.range 8).map fun k =>
          ((rows.map List.toArray).toArray.getD (8 * r + k) #[]).getD c 0))) := by
    intro r hr
    rw [mapM_eq_some (hentry r hr)]
    rfl
  rw [transposeColumn?, mapM_eq_some hsquare]
  rfl

/-- A matrix of one row length is read inside its rows. -/
theorem transposeBits?_eq_some (rows : List Bytes) (batchBytes : Nat) (pool : Pool) :
    transposeBits? rows batchBytes pool = some (transposeBits rows batchBytes pool) := by
  by_cases hcount : rows.length ≠ baseCount
  · rw [transposeBits?, transposeBits, if_pos hcount, if_pos hcount]
  rw [transposeBits?, transposeBits, if_neg hcount, if_neg hcount]
  cases hfind : rows.find? (·.length ≠ batchBytes) with
  | some row => rfl
  | none =>
    have hrows : ∀ row ∈ rows, row.length = batchBytes := by simpa using hfind
    let table := (rows.map List.toArray).toArray
    have hcolumns : pool.mapRange? batchBytes (transposeColumn? rows) =
        some (pool.mapList (transposeColumn table) (List.range batchBytes)) := by
      rw [Pool.mapList_eq_map]
      refine pool.mapRange?_eq_some (by simp) fun c hc => ?_
      rw [List.length_map, List.length_range] at hc
      rw [transposeColumn?_eq_some (not_not.1 hcount) fun row hrow => (hrows row hrow).symm ▸ hc]
      simp [table]
    simp only [hcolumns]
    rfl

end BitMatrix

namespace Correlated

/-! ## Setups -/

section Setup

open RandomTransfer

theorem parts?_toList {α β : Type} (results : Vector α baseCount) (part : α → β) :
    parts? results.toList part = some (results.map part) := by
  have hparts (i : Fin baseCount) :
      results.toList[i.val]?.map part = some (part (results.get i)) := by
    rw [Vector.getElem?_toList, Vector.getElem?_eq_getElem i.isLt]
    rfl
  have hmap : Vector.ofFn (fun i => part (results.get i)) = results.map part := by
    apply Vector.ext
    intro i hi
    rw [Vector.getElem_ofFn, Vector.getElem_map]
    rfl
  rw [parts?, funext hparts, ← hmap]
  exact Vector.ofFnM_pure

variable {P : Type} [PointGroup P]

theorem SetupSender.make?_eq_some (t : Transcript) (pool : Pool) (base : Receiver P) (delta : Block)
    (secrets : Vector Scalar baseCount) :
    SetupSender.make? t pool base delta secrets =
      some (SetupSender.make t pool base delta secrets) := by
  let chosen (i : Fin baseCount) := base.chooseWith (baseNonce t i) (delta.getLsbD i) secrets[i]
  have hresults : (pool.mapRange? baseCount fun i => do
      return base.chooseWith (baseNonce t i) (← bit? delta.toBytes i) (← secrets[i]?)) =
        some (pool.tabulate baseCount chosen).toList := by
    refine pool.mapRange?_eq_some_tabulate fun i => ?_
    rw [Block.bit?_toBytes delta i.isLt, Vector.getElem?_eq_getElem i.isLt]
    rfl
  rw [SetupSender.make?, hresults]
  simp only [bind, Option.bind, parts?_toList]
  rfl

theorem SetupReceiver.challenge?_eq_some (receiver : SetupReceiver P) (message : SetupChoices P) :
    receiver.challenge? message = some (receiver.challenge message) := by
  let challenged (i : Fin baseCount) :=
    receiver.sender.challenge (baseNonce receiver.transcript i) message.points[i]
  have hresults : (receiver.pool.mapRange? baseCount fun i => do
      return receiver.sender.challenge (baseNonce receiver.transcript i) (← message.points[i]?)) =
        some (receiver.pool.tabulate baseCount challenged).toList := by
    refine receiver.pool.mapRange?_eq_some_tabulate fun i => ?_
    rw [Vector.getElem?_eq_getElem i.isLt]
    rfl
  rw [SetupReceiver.challenge?, hresults]
  simp only [bind, Option.bind, parts?_toList]
  rfl

theorem SetupSender.respond?_eq_some (sender : SetupSender) (message : SetupChallenges) :
    sender.respond? message = some (sender.respond message) := by
  let responded (i : Fin baseCount) := sender.states[i].respond message.challenges[i]
  have hresults : (sender.pool.mapRange? baseCount fun i => do
      return (← sender.states[i]?).respond (← message.challenges[i]?)) =
        some (sender.pool.tabulate baseCount responded).toList := by
    refine sender.pool.mapRange?_eq_some_tabulate fun i => ?_
    rw [Vector.getElem?_eq_getElem i.isLt, Vector.getElem?_eq_getElem i.isLt]
    rfl
  rw [SetupSender.respond?, hresults]
  simp only [bind, Option.bind, parts?_toList]
  rfl

theorem SetupReceiverChallenged.reveal?_eq_some (receiver : SetupReceiverChallenged)
    (message : SetupResponses) : receiver.reveal? message = some (receiver.reveal message) := by
  let verdict (i : Fin baseCount) := receiver.states[i].reveal message.responses[i]
  have hverdicts : (receiver.pool.mapRange? baseCount fun i => do
      return (← receiver.states[i]?).reveal (← message.responses[i]?)) =
        some (receiver.pool.tabulate baseCount verdict).toList := by
    refine receiver.pool.mapRange?_eq_some_tabulate fun i => ?_
    rw [Vector.getElem?_eq_getElem i.isLt, Vector.getElem?_eq_getElem i.isLt]
    rfl
  rw [SetupReceiverChallenged.reveal?, SetupReceiverChallenged.reveal, hverdicts]
  simp only [bind, Option.bind, mapM_id_toList]
  cases (receiver.pool.tabulate baseCount verdict).mapM id with
  | error e => rfl
  | ok results =>
    simp only [Except.map, Except.bind, parts?_toList, Vector.map_map]
    rfl

theorem SetupSenderResponded.finish?_eq_some (sender : SetupSenderResponded)
    (message : SetupOpenings) : sender.finish? message = some (sender.finish message) := by
  let verdict (i : Fin baseCount) := sender.states[i].verify message.openings[i]
  have hverdicts : (sender.pool.mapRange? baseCount fun i => do
      return (← sender.states[i]?).verify (← message.openings[i]?)) =
        some (sender.pool.tabulate baseCount verdict).toList := by
    refine sender.pool.mapRange?_eq_some_tabulate fun i => ?_
    rw [Vector.getElem?_eq_getElem i.isLt, Vector.getElem?_eq_getElem i.isLt]
    rfl
  rw [SetupSenderResponded.finish?, SetupSenderResponded.finish, hverdicts]
  simp only [bind, Option.bind, mapM_id_toList]
  cases (sender.pool.tabulate baseCount verdict).mapM id with
  | error e => rfl
  | ok keys =>
    simp only [Except.map, Except.bind, parts?_toList, Vector.map_id]
    rfl

end Setup

/-! ## Extensions -/

theorem sendRow?_eq_some (setup : SendSetup) (nonce : Block) {length : Nat}
    {message : ExtendMessage}
    (hlength : message.u.length = baseCount * length) (i : Fin baseCount) :
    sendRow? setup nonce length message i = some (sendRow setup nonce length message i) := by
  have hkey : setup.keys[i.val]? = some (setup.key i) := Vector.getElem?_eq_getElem i.isLt
  rw [sendRow?, hkey, Block.bit?_toBytes setup.delta i.isLt, row?_eq_some hlength i]
  rfl

/-- Rows, keys and bits are there whenever the message has the size that was asked for. -/
theorem send?_eq_some (t : Transcript) (setup : SendSetup) (rowLength : RowLength)
    (message : ExtendMessage) (pool : Pool) :
    send? t setup rowLength message pool = some (send t setup rowLength message pool) := by
  by_cases hzero : rowLength.bytes = 0
  · rw [send?, send, if_pos hzero, if_pos hzero]
  by_cases hlength : message.u.length ≠ baseCount * rowLength.bytes
  · rw [send?, send, if_neg hzero, if_neg hzero, if_pos hlength, if_pos hlength]
  rw [send?, send, if_neg hzero, if_neg hzero, if_neg hlength, if_neg hlength]
  let row := sendRow setup (extendNonce t) rowLength.bytes message
  have hrows : pool.mapRange? baseCount (sendRow? setup (extendNonce t) rowLength.bytes message) =
      some (pool.tabulate baseCount row).toList :=
    pool.mapRange?_eq_some_tabulate (sendRow?_eq_some setup _ (not_not.1 hlength))
  rw [hrows]
  exact BitMatrix.transposeBits?_eq_some _ rowLength.bytes pool

/-- A sender that has not refused the message has eight blocks for each byte of a row. -/
theorem length_of_send_eq_ok {t : Transcript} {setup : SendSetup} {rowLength : RowLength}
    {message : ExtendMessage} {pool : Pool} {blocks : List Block}
    (h : send t setup rowLength message pool = .ok blocks) :
    blocks.length = 8 * rowLength.bytes := by
  by_cases hzero : rowLength.bytes = 0
  · rw [send, if_pos hzero] at h
    cases h
  by_cases hlength : message.u.length = baseCount * rowLength.bytes
  · rw [send_eq_ok (agree_doubled setup) t hzero hlength] at h
    cases h
    rw [List.length_map, List.length_range]
  · rw [send, if_neg hzero, if_pos hlength] at h
    cases h

end Correlated

end ObliviousTransfer
