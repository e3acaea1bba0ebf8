import Mathlib
import ObliviousTransfer.Multiply
import ObliviousTransfer.Proofs.PointEncoding
import ObliviousTransfer.Proofs.TranscriptFraming

/-!
# Every use of the sponge has its own input

A `Script` is what the protocols do with a transcript: it is started, forked, and labelled data are
added to it, under labels other than the one of forks. What is absorbed says which script it was:
scripts are absorbed alike only if they are equal, points and scalars counted as their bytes, and a
script whose bytes begin those of another one begins the other one (`Script.absorbed_isPrefix_iff`).
The generator's inputs are read back in the same way and are no script's bytes
(`Prg.input_ne_absorbed`).

A `Use` is one of the purposes for which a protocol reads from the transcript of a session. Uses in
different sessions, for different purposes or with different data have different inputs
(`Use.absorbed_on_eq_iff`).

## Shape of the proof

Forks are the only lists of strings, so the label of a write tells its format. A write can then be
taken off the front of the bytes in one way only, and the induction over one script goes on with the
rest of both. The last fork of a use names its purpose; what stands before it is the session, and
what stands behind it are the data.
-/

namespace ObliviousTransfer

/-! ## Scripts -/

namespace Transcript

/-- One addition to a transcript. -/
inductive Step (P : Type) where
  | fork (domain data : Bytes)
  | append (label data : Bytes)
  | appendPoint (label : Bytes) (p : P)
  | appendScalar (label : Bytes) (s : Scalar)
deriving DecidableEq

namespace Step

variable {P : Type} [PointGroup P]

/-- The transcript behind a step. -/
def apply (t : Transcript) : Step P → Transcript
  | fork domain data => t.fork domain data
  | append label data => t.append label data
  | appendPoint label p => t.appendPoint label p
  | appendScalar label s => t.appendScalar label s

/-- The step with a point or a scalar read as its bytes. -/
def plain : Step P → Step P
  | appendPoint label p => append label (PointGroup.encode p)
  | appendScalar label s => append label s.toBytes
  | step => step

/-- The write that a step makes. -/
def toWrite : Step P → Write
  | fork domain data => .items forkLabel [domain, data]
  | append label data => .item label data
  | appendPoint label p => .item label (PointGroup.encode p)
  | appendScalar label s => .item label s.toBytes

/-- The label of forks is for forks only, and all lengths fit into eight bytes. -/
def Proper : Step P → Prop
  | fork domain data => domain.length < sizeLimit ∧ data.length < sizeLimit
  | append label data => label ≠ forkLabel ∧ label.length < sizeLimit ∧ data.length < sizeLimit
  | appendPoint label p =>
    label ≠ forkLabel ∧ label.length < sizeLimit ∧ (PointGroup.encode p).length < sizeLimit
  | appendScalar label _ => label ≠ forkLabel ∧ label.length < sizeLimit

instance (step : Step P) : Decidable step.Proper :=
  match step with
  | fork .. => inferInstanceAs (Decidable (_ ∧ _))
  | append .. => inferInstanceAs (Decidable (_ ∧ _ ∧ _))
  | appendPoint .. => inferInstanceAs (Decidable (_ ∧ _ ∧ _))
  | appendScalar .. => inferInstanceAs (Decidable (_ ∧ _))

theorem apply_eq (t : Transcript) (step : Step P) : step.apply t = t.write step.toWrite := by
  cases step <;> rfl

theorem toWrite_plain (step : Step P) : step.plain.toWrite = step.toWrite := by
  cases step <;> rfl

/-- The step on bytes that makes a write. -/
def ofWrite : Write → Step P
  | .item label data => append label data
  | .items _ parts => fork (parts.getD 0 []) (parts.getD 1 [])

theorem ofWrite_toWrite (step : Step P) : ofWrite step.toWrite = step.plain := by
  cases step <;> rfl

/-- One sequence of writes begins another one exactly if the steps on bytes do. -/
theorem map_toWrite_isPrefix_iff (steps steps' : List (Step P)) :
    steps.map toWrite <+: steps'.map toWrite ↔ steps.map plain <+: steps'.map plain := by
  constructor
  · intro h
    simpa [Function.comp_def, ofWrite_toWrite] using h.map (ofWrite : Write → Step P)
  · intro h
    simpa [Function.comp_def, toWrite_plain] using h.map toWrite

/-- The four ways to add to a transcript. -/
inductive Kind where
  | fork
  | data
  | point
  | scalar
deriving DecidableEq

/-- What a step adds. -/
def kind : Step P → Kind
  | fork .. => .fork
  | append .. => .data
  | appendPoint .. => .point
  | appendScalar .. => .scalar

/-- The bytes of a step of known kind determine the point or the scalar. -/
theorem eq_of_plain_eq (hencode : ∀ p q : P, PointGroup.encode p = PointGroup.encode q → p = q)
    {step step' : Step P} (hkind : step.kind = step'.kind) (hplain : step.plain = step'.plain) :
    step = step' := by
  cases step <;> cases step' <;> cases hkind
  case fork => exact hplain
  case append => exact hplain
  case appendPoint label p label' q =>
    obtain ⟨hlabel, hbytes⟩ := append.inj hplain
    rw [hlabel, hencode p q hbytes]
  case appendScalar label s label' s' =>
    obtain ⟨hlabel, hbytes⟩ := append.inj hplain
    rw [hlabel, Scalar.toBytes_injective hbytes]

/-- So do the bytes of a sequence of steps of known kinds. -/
theorem eq_of_map_plain_eq (hencode : ∀ p q : P, PointGroup.encode p = PointGroup.encode q → p = q)
    {steps steps' : List (Step P)} (hkinds : steps.map kind = steps'.map kind)
    (hplain : steps.map plain = steps'.map plain) : steps = steps' := by
  induction steps generalizing steps' with
  | nil => exact (List.map_eq_nil_iff.1 hkinds.symm).symm
  | cons step steps ih =>
    cases steps' with
    | nil => cases hkinds
    | cons step' steps' =>
      obtain ⟨hkind, hkinds⟩ := List.cons.inj hkinds
      obtain ⟨hstep, hplain⟩ := List.cons.inj hplain
      rw [eq_of_plain_eq hencode hkind hstep, ih hkinds hplain]

end Step

/-- The writes of proper steps are of the format that their label tells. -/
def HasFormat (w : Write) : Prop :=
  w.Fits ∧ w.isList = decide (w.label = forkLabel)

theorem Step.Proper.hasFormat {P : Type} [PointGroup P] {step : Step P} (h : step.Proper) :
    HasFormat step.toWrite := by
  cases step with
  | fork domain data =>
    have htwo : 2 < sizeLimit := by decide
    have hparts : ∀ part ∈ [domain, data], part.length < sizeLimit :=
      List.forall_mem_cons.2 ⟨h.1, List.forall_mem_singleton.2 h.2⟩
    exact ⟨⟨by decide, htwo, hparts⟩, rfl⟩
  | append label data => exact ⟨h.2, (decide_eq_false h.1).symm⟩
  | appendPoint label p => exact ⟨h.2, (decide_eq_false h.1).symm⟩
  | appendScalar label s =>
    have hlength : s.toBytes.length < sizeLimit := by
      rw [Scalar.length_toBytes]
      decide
    exact ⟨⟨h.2, hlength⟩, (decide_eq_false h.1).symm⟩

/-- If the bytes of one sequence of writes begin those of another one, so do the writes. -/
theorem isPrefix_of_encode {vs ws : List Write} (hvs : ∀ v ∈ vs, HasFormat v)
    (hws : ∀ w ∈ ws, HasFormat w) (h : vs.flatMap Write.encode <+: ws.flatMap Write.encode) :
    vs <+: ws := by
  refine (flatMap_isPrefix_iff Write.encode_ne_nil ?_ hvs hws).1 h
  intro v w x y hv hw hencode
  have hlabel : v.label = w.label := (Write.encode_append_inj hv.1 hw.1 hencode).1
  have hformat : v.isList = w.isList := by rw [hv.2, hw.2, hlabel]
  exact Write.encode_append_inj_of_isList_eq hv.1 hw.1 hformat hencode

/-- A transcript as the protocols build it: the domain of the session, and the steps behind it. -/
structure Script (P : Type) [PointGroup P] where
  domain : Bytes
  steps : List (Step P)
  domain_lt : domain.length < sizeLimit
  proper : ∀ step ∈ steps, step.Proper

namespace Script

variable {P : Type} [PointGroup P]

/-- The transcript that a script builds. -/
def transcript (script : Script P) : Transcript :=
  script.steps.foldl Step.apply (new script.domain)

theorem writes_foldl_apply (steps : List (Step P)) (t : Transcript) :
    (steps.foldl Step.apply t).writes = t.writes ++ steps.map Step.toWrite := by
  induction steps generalizing t with
  | nil => exact (List.append_nil _).symm
  | cons step steps ih =>
    rw [List.foldl_cons, ih, Step.apply_eq, write, List.append_assoc]
    rfl

theorem writes_transcript (script : Script P) :
    script.transcript.writes = .item tag script.domain :: script.steps.map Step.toWrite :=
  writes_foldl_apply script.steps (new script.domain)

theorem hasFormat (script : Script P) : ∀ w ∈ script.transcript.writes, HasFormat w := by
  rw [writes_transcript, List.forall_mem_cons, List.forall_mem_map]
  have htag : tag ≠ forkLabel := by decide
  exact ⟨⟨⟨by decide, script.domain_lt⟩, (decide_eq_false htag).symm⟩,
    fun step hstep => (script.proper step hstep).hasFormat⟩

/-- If the bytes of one script begin those of another one, the one script begins the other one. -/
theorem absorbed_isPrefix_iff (s t : Script P) :
    s.transcript.absorbed <+: t.transcript.absorbed ↔
      s.domain = t.domain ∧ s.steps.map Step.plain <+: t.steps.map Step.plain := by
  have hwrites : s.transcript.writes <+: t.transcript.writes ↔
      s.domain = t.domain ∧ s.steps.map Step.plain <+: t.steps.map Step.plain := by
    rw [writes_transcript, writes_transcript, List.cons_prefix_cons, Step.map_toWrite_isPrefix_iff,
      Write.item.injEq, eq_self, true_and]
  rw [← hwrites]
  exact ⟨isPrefix_of_encode s.hasFormat t.hasFormat, fun h => h.flatMap Write.encode⟩

private theorem eq_iff_isPrefix {α : Type} (xs ys : List α) : xs = ys ↔ xs <+: ys ∧ ys <+: xs := by
  constructor
  · rintro rfl
    exact ⟨List.prefix_rfl, List.prefix_rfl⟩
  · exact fun h => h.1.eq_of_length_le h.2.length_le

/-- Scripts are absorbed alike exactly if they are the same on bytes. -/
theorem absorbed_eq_iff_plain_eq (s t : Script P) :
    s.transcript.absorbed = t.transcript.absorbed ↔
      s.domain = t.domain ∧ s.steps.map Step.plain = t.steps.map Step.plain := by
  rw [eq_iff_isPrefix, absorbed_isPrefix_iff, absorbed_isPrefix_iff,
    eq_iff_isPrefix (s.steps.map _)]
  exact ⟨fun h => ⟨h.1.1, h.1.2, h.2.2⟩, fun h => ⟨⟨h.1, h.2.1⟩, h.1.symm, h.2.2⟩⟩

/-- Scripts whose steps are of the same kinds are absorbed alike only if they are equal. -/
theorem absorbed_eq_iff_of_kinds_eq
    (hencode : ∀ p q : P, PointGroup.encode p = PointGroup.encode q → p = q) {s t : Script P}
    (hkinds : s.steps.map Step.kind = t.steps.map Step.kind) :
    s.transcript.absorbed = t.transcript.absorbed ↔ s.domain = t.domain ∧ s.steps = t.steps := by
  rw [absorbed_eq_iff_plain_eq]
  refine and_congr_right fun _ => ⟨fun hplain => ?_, fun h => by rw [h]⟩
  exact Step.eq_of_map_plain_eq hencode hkinds hplain

/-- The bytes of a script begin with the length of the first label. -/
theorem absorbed_eq_cons (s : Script P) : ∃ rest, s.transcript.absorbed = 0 :: rest := by
  rw [absorbed, writes_transcript, List.flatMap_cons]
  exact ⟨_, rfl⟩

end Script

/-! ## Uses of a transcript -/

/-- What a transcript is read for, with the data that decide what is read. -/
inductive Use (P : Type) where
  /-- The challenge of a proof of a discrete logarithm. -/
  | proofChallenge (point commitment : P)
  /-- The nonce of a base transfer. -/
  | baseNonce (index : Nat)
  /-- The nonce under which keys are stretched. -/
  | extendNonce
  /-- The challenges of the check of an extension. -/
  | checkChallenges (message : Correlated.ExtendMessage)
  /-- The salt of the outputs of an extension. -/
  | outputSalt
  /-- The salt of the pads of additive shares. -/
  | padSalt
  /-- The random part of a gadget vector. -/
  | gadget
  /-- The challenges of the check of a multiplication. -/
  | multiplyChallenges (message : AdditiveTransfer.Message)
deriving DecidableEq

namespace Use

/-- The purposes of uses, which the domains of their forks tell apart. -/
inductive Purpose where
  | proofChallenge
  | baseNonce
  | extendNonce
  | checkChallenges
  | outputSalt
  | padSalt
  | gadget
  | multiplyChallenges
deriving DecidableEq

/-- The domain of the fork for a purpose. -/
def Purpose.domain : Purpose → Bytes
  | proofChallenge => DLogProof.domain
  | baseNonce => Correlated.baseDomain
  | extendNonce => Correlated.extendDomain
  | checkChallenges => Extension.checkDomain
  | outputSalt => Extension.outputDomain
  | padSalt => AdditiveTransfer.padDomain
  | gadget => Multiply.gadgetDomain
  | multiplyChallenges => Multiply.checkDomain

theorem Purpose.domain_injective {a b : Purpose} (h : a.domain = b.domain) : a = b := by
  cases a <;> cases b <;> first | rfl | exact absurd h (by decide)

variable {P : Type} [PointGroup P]

/-- The purpose of a use. -/
def purpose : Use P → Purpose
  | proofChallenge .. => .proofChallenge
  | baseNonce _ => .baseNonce
  | extendNonce => .extendNonce
  | checkChallenges _ => .checkChallenges
  | outputSalt => .outputSalt
  | padSalt => .padSalt
  | gadget => .gadget
  | multiplyChallenges _ => .multiplyChallenges

/-- The transcript that is read, given that of the session. -/
def on (t : Transcript) : Use P → Transcript
  | proofChallenge point commitment => DLogProof.statement t point commitment
  | baseNonce index => t.fork Correlated.baseDomain (Bytes.lengthField index)
  | extendNonce => t.fork Correlated.extendDomain []
  | checkChallenges message =>
    (t.fork Extension.checkDomain []).append (Bytes.ofAscii "u") message.u
  | outputSalt => t.fork Extension.outputDomain []
  | padSalt => t.fork AdditiveTransfer.padDomain []
  | gadget => t.fork Multiply.gadgetDomain []
  | multiplyChallenges message =>
    message.ciphertexts.foldl
      (fun t pair => (t.appendScalar (Bytes.ofAscii "ciphertext") pair.1).appendScalar
        (Bytes.ofAscii "ciphertext") pair.2)
      (t.fork Multiply.checkDomain [])

/-- The data of the fork. -/
def forkData : Use P → Bytes
  | baseNonce index => Bytes.lengthField index
  | _ => []

/-- The steps for a pair of ciphertexts. -/
def pairSteps (pair : AdditiveTransfer.ScalarPair) : List (Step P) :=
  [.appendScalar (Bytes.ofAscii "ciphertext") pair.1,
    .appendScalar (Bytes.ofAscii "ciphertext") pair.2]

/-- The steps behind the fork. -/
def behind : Use P → List (Step P)
  | proofChallenge point commitment =>
    [.appendPoint (Bytes.ofAscii "generator") PointGroup.generator,
      .appendPoint (Bytes.ofAscii "point") point,
      .appendPoint (Bytes.ofAscii "rand_commitment") commitment]
  | checkChallenges message => [.append (Bytes.ofAscii "u") message.u]
  | multiplyChallenges message => message.ciphertexts.flatMap pairSteps
  | _ => []

/-- All steps of a use. -/
def steps (use : Use P) : List (Step P) :=
  .fork use.purpose.domain use.forkData :: use.behind

/-- All lengths and the index of a use fit into eight bytes. -/
def Fits : Use P → Prop
  | proofChallenge point commitment =>
    (PointGroup.encode (PointGroup.generator : P)).length < sizeLimit ∧
      (PointGroup.encode point).length < sizeLimit ∧
      (PointGroup.encode commitment).length < sizeLimit
  | baseNonce index => index < sizeLimit
  | checkChallenges message => message.u.length < sizeLimit
  | _ => True

/-- The transcript of a use is that of the session with the steps of the use. -/
theorem on_eq (use : Use P) (t : Transcript) : use.on t = use.steps.foldl Step.apply t := by
  cases use with
  | multiplyChallenges message =>
    show _ = (message.ciphertexts.flatMap _).foldl Step.apply (t.fork Multiply.checkDomain [])
    rw [List.foldl_flatMap]
    rfl
  | _ => rfl

theorem Purpose.length_domain_lt (purpose : Purpose) : purpose.domain.length < sizeLimit := by
  cases purpose <;> decide

theorem proper_behind {use : Use P} (h : use.Fits) : ∀ step ∈ use.behind, step.Proper := by
  cases use with
  | proofChallenge point commitment =>
    obtain ⟨hgenerator, hpoint, hcommitment⟩ := h
    simp only [behind, List.forall_mem_cons]
    exact ⟨⟨by decide, by decide, hgenerator⟩, ⟨by decide, by decide, hpoint⟩,
      ⟨by decide, by decide, hcommitment⟩, List.forall_mem_nil _⟩
  | checkChallenges message => exact List.forall_mem_singleton.2 ⟨by decide, by decide, h⟩
  | multiplyChallenges message =>
    have hlabel (s : Scalar) :
        (Step.appendScalar (Bytes.ofAscii "ciphertext") s : Step P).Proper := ⟨by decide, by decide⟩
    simp only [behind, List.mem_flatMap]
    rintro step ⟨pair, -, hstep⟩
    rcases List.mem_pair.1 hstep with rfl | rfl
    · exact hlabel pair.1
    · exact hlabel pair.2
  | _ => exact List.forall_mem_nil _

theorem proper_steps {use : Use P} (h : use.Fits) : ∀ step ∈ use.steps, step.Proper := by
  have hdata : use.forkData.length < sizeLimit := by
    cases use with
    | baseNonce index =>
      show (Bytes.lengthField index).length < sizeLimit
      rw [Bytes.length_lengthField]
      decide
    | _ => exact (by decide : 0 < sizeLimit)
  exact List.forall_mem_cons.2 ⟨⟨use.purpose.length_domain_lt, hdata⟩, proper_behind h⟩

/-- The script of a session with the steps of a use. -/
def script (use : Use P) (h : use.Fits) (session : Script P) : Script P where
  domain := session.domain
  steps := session.steps ++ use.steps
  domain_lt := session.domain_lt
  proper := List.forall_mem_append.2 ⟨session.proper, proper_steps h⟩

theorem transcript_script (use : Use P) (h : use.Fits) (session : Script P) :
    (use.script h session).transcript = use.on session.transcript := by
  rw [on_eq]
  exact List.foldl_append ..

/-! ### The last fork -/

private theorem append_cons_inj {α : Type} {p : α → Prop} {front front' behind behind' : List α}
    {x y : α} (hx : p x) (hy : p y) (hbehind : ∀ z ∈ behind, ¬p z) (hbehind' : ∀ z ∈ behind', ¬p z)
    (h : front ++ x :: behind = front' ++ y :: behind') :
    front = front' ∧ x = y ∧ behind = behind' := by
  obtain ⟨between, hfront, hrest⟩ | ⟨between, hfront, hrest⟩ := List.append_eq_append_iff.1 h <;>
  cases between with
  | nil =>
    obtain ⟨hxy, hrest⟩ := List.cons.inj hrest
    exact ⟨by simp [hfront], by simp [hxy], by simp [hrest]⟩
  | cons z between =>
    obtain ⟨-, hrest⟩ := List.cons.inj hrest
    first
    | exact absurd hy (hbehind y (by simp [hrest]))
    | exact absurd hx (hbehind' x (by simp [hrest]))

theorem kind_ne_fork_of_mem_behind {use : Use P} :
    ∀ step ∈ use.behind.map Step.plain, step.kind ≠ .fork := by
  rw [List.forall_mem_map]
  cases use with
  | proofChallenge point commitment => simp [behind, Step.plain, Step.kind]
  | checkChallenges message => simp [behind, Step.plain, Step.kind]
  | multiplyChallenges message =>
    intro step hstep
    obtain ⟨pair, -, hpair⟩ := List.mem_flatMap.1 hstep
    rcases List.mem_pair.1 hpair with rfl | rfl <;> nofun
  | _ => exact List.forall_mem_nil _

theorem eq_of_flatMap_pairSteps_eq {a b : List AdditiveTransfer.ScalarPair}
    (h : (a.flatMap pairSteps : List (Step P)).map Step.plain =
      (b.flatMap pairSteps).map Step.plain) :
    a = b := by
  induction a generalizing b with
  | nil =>
    cases b with
    | nil => rfl
    | cons _ _ => cases h
  | cons pair a ih =>
    cases b with
    | nil => cases h
    | cons pair' b =>
      obtain ⟨hfirst, h⟩ := List.cons.inj h
      obtain ⟨hsecond, h⟩ := List.cons.inj h
      have hpair : pair = pair' := Prod.ext (Scalar.toBytes_injective (Step.append.inj hfirst).2)
        (Scalar.toBytes_injective (Step.append.inj hsecond).2)
      rw [hpair, ih h]

/-- The steps of a use determine it. -/
theorem eq_of_plain_steps_eq
    (hencode : ∀ p q : P, PointGroup.encode p = PointGroup.encode q → p = q)
    {use use' : Use P} (h : use.Fits) (h' : use'.Fits)
    (hfork : (Step.fork use.purpose.domain use.forkData : Step P) =
      .fork use'.purpose.domain use'.forkData)
    (hbehind : use.behind.map Step.plain = use'.behind.map Step.plain) : use = use' := by
  obtain ⟨hdomain, hdata⟩ := Step.fork.inj hfork
  have hpurpose := Purpose.domain_injective hdomain
  cases use <;> cases use' <;> cases hpurpose
  case proofChallenge point commitment point' commitment' =>
    obtain ⟨-, hbehind⟩ := List.cons.inj hbehind
    obtain ⟨hpoint, hbehind⟩ := List.cons.inj hbehind
    obtain ⟨hcommitment, -⟩ := List.cons.inj hbehind
    rw [hencode point point' (Step.append.inj hpoint).2,
      hencode commitment commitment' (Step.append.inj hcommitment).2]
  case baseNonce index index' => rw [Bytes.lengthField_injective h h' hdata]
  case checkChallenges message message' =>
    obtain ⟨hmatrix, -⟩ := List.cons.inj hbehind
    exact congrArg (fun u => checkChallenges ⟨u⟩) (Step.append.inj hmatrix).2
  case multiplyChallenges message message' =>
    exact congrArg (fun ciphertexts => multiplyChallenges ⟨ciphertexts⟩)
      (eq_of_flatMap_pairSteps_eq hbehind)
  all_goals rfl

/-- Uses are absorbed alike only if session and use are the same. -/
theorem absorbed_on_eq_iff (hencode : ∀ p q : P, PointGroup.encode p = PointGroup.encode q → p = q)
    {use use' : Use P} (h : use.Fits) (h' : use'.Fits) (s t : Script P) :
    (use.on s.transcript).absorbed = (use'.on t.transcript).absorbed ↔
      s.domain = t.domain ∧ s.steps.map Step.plain = t.steps.map Step.plain ∧ use = use' := by
  rw [← transcript_script use h, ← transcript_script use' h', Script.absorbed_eq_iff_plain_eq]
  refine and_congr_right fun _ => ?_
  constructor
  · intro hsteps
    rw [script, script, List.map_append, List.map_append] at hsteps
    obtain ⟨hsession, hfork, hbehind⟩ :=
      append_cons_inj (p := fun step : Step P => step.kind = .fork) rfl rfl
        kind_ne_fork_of_mem_behind kind_ne_fork_of_mem_behind hsteps
    exact ⟨hsession, eq_of_plain_steps_eq hencode h h' hfork hbehind⟩
  · rintro ⟨hsession, rfl⟩
    rw [script, script, List.map_append, List.map_append, hsession]

/-- What the protocols compute for a use is read from its transcript. -/
def IsReadFrom (t : Transcript) : Use P → Prop
  | use@(proofChallenge point commitment) =>
    DLogProof.challenge t point commitment = (use.on t).read Reading.scalar
  | use@(baseNonce index) => Correlated.baseNonce t index = (use.on t).read Reading.block
  | use@extendNonce => Correlated.extendNonce t = (use.on t).read Reading.block
  | use@(checkChallenges message) => ∀ count,
    Extension.challenges t message count = (use.on t).read (Reading.times count Reading.halfBlock)
  | use@outputSalt => ∀ blocks pool, Extension.outputs t blocks pool =
    pool.mapList (fun entry => hashParts [Bytes.lengthField entry.2, entry.1.toBytes]
      ((use.on t).read Reading.block).toBytes) blocks.zipIdx
  | use@padSalt => AdditiveTransfer.padSalt t = (use.on t).read Reading.block
  | use@gadget => (Multiply.publicGadget t).drop securityBits =
    (use.on t).read (Reading.times noiseBits Reading.scalar)
  | use@(multiplyChallenges message) => Multiply.challenges t message = (use.on t).read do
    let tilde ← Reading.scalar
    let hat ← Reading.scalar
    let salt ← Reading.block
    return ⟨tilde, hat, salt⟩

theorem isReadFrom (use : Use P) (t : Transcript) : use.IsReadFrom t := by
  cases use with
  | checkChallenges message => exact fun _ => rfl
  | outputSalt => exact fun _ _ => rfl
  | gadget =>
    have hpowers : ((List.range securityBits).map fun i => Scalar.reduce (1 <<< i)).length =
        securityBits := by
      rw [List.length_map, List.length_range]
    exact List.drop_left' hpowers
  | _ => rfl

end Use

end Transcript

/-! ## The generator -/

namespace Prg

/-- The generator's input determines key, nonce and index. -/
theorem input_eq_iff {key nonce key' nonce' : Block} {index index' : Nat} (h : index < sizeLimit)
    (h' : index' < sizeLimit) :
    input key nonce index = input key' nonce' index' ↔
      key = key' ∧ nonce = nonce' ∧ index = index' := by
  constructor
  · intro heq
    rw [input, input, List.append_assoc, List.append_assoc, List.append_assoc,
      List.append_assoc] at heq
    obtain ⟨hnonce, hrest⟩ := List.append_inj (List.append_cancel_left heq)
      (by rw [Block.length_toBytes, Block.length_toBytes])
    obtain ⟨hindex, hkey⟩ := Bytes.lengthField_append_inj h h' hrest
    exact ⟨Block.toBytes_injective hkey, Block.toBytes_injective hnonce, hindex⟩
  · rintro ⟨rfl, rfl, rfl⟩
    rfl

/-- A transcript begins with a zero byte, the generator's input does not. -/
theorem input_ne_absorbed {P : Type} [PointGroup P] (key nonce : Block) (index : Nat)
    (s : Transcript.Script P) : input key nonce index ≠ s.transcript.absorbed := by
  obtain ⟨rest, hrest⟩ := s.absorbed_eq_cons
  rw [hrest, input]
  intro h
  exact absurd (List.cons.inj h).1 (by decide)

end Prg

open Transcript in
/-- What the sponge absorbs is never the same for two purposes. A script of a transcript is
determined by the absorbed bytes, points and scalars counted as theirs, and so is the beginning of a
script by the beginning of its bytes; the generator's inputs determine key, nonce and index and are
no script's bytes; and what the protocols read in a session is read behind bytes that determine the
session, the purpose and all data. These are the strings that are hashed: a transcript is read from
the output of SHAKE256 for its bytes, and the generator's output is that for its input. -/
theorem sponge_inputs_separate {P : Type} [PointGroup P]
    (hencode : ∀ p q : P, PointGroup.encode p = PointGroup.encode q → p = q) :
    (∀ s t : Script P,
      (s.transcript.absorbed = t.transcript.absorbed ↔
        s.domain = t.domain ∧ s.steps.map Step.plain = t.steps.map Step.plain) ∧
      (s.transcript.absorbed <+: t.transcript.absorbed ↔
        s.domain = t.domain ∧ s.steps.map Step.plain <+: t.steps.map Step.plain) ∧
      (s.steps.map Step.kind = t.steps.map Step.kind →
        (s.transcript.absorbed = t.transcript.absorbed ↔
          s.domain = t.domain ∧ s.steps = t.steps))) ∧
    (∀ key nonce key' nonce' index index', index < sizeLimit → index' < sizeLimit →
      (Prg.input key nonce index = Prg.input key' nonce' index' ↔
        key = key' ∧ nonce = nonce' ∧ index = index')) ∧
    (∀ key nonce index, ∀ s : Script P, Prg.input key nonce index ≠ s.transcript.absorbed) ∧
    (∀ (use use' : Use P) (s t : Script P), use.Fits → use'.Fits →
      ((use.on s.transcript).absorbed = (use'.on t.transcript).absorbed ↔
        s.domain = t.domain ∧ s.steps.map Step.plain = t.steps.map Step.plain ∧ use = use') ∧
      ∀ key nonce index, Prg.input key nonce index ≠ (use.on s.transcript).absorbed) ∧
    (∀ (use : Use P) (t : Transcript), use.IsReadFrom t) ∧
    (∀ t : Transcript, t.digest = Shake256.reader t.absorbed) ∧
    ∀ key nonce index length,
      Prg.expand key nonce index length = Shake256.digest (Prg.input key nonce index) length := by
  refine ⟨fun s t => ⟨s.absorbed_eq_iff_plain_eq t, s.absorbed_isPrefix_iff t, ?_⟩, ?_, ?_, ?_,
    fun use t => use.isReadFrom t, fun _ => rfl, fun _ _ _ _ => rfl⟩
  · exact fun hkinds => Script.absorbed_eq_iff_of_kinds_eq hencode hkinds
  · exact fun key nonce key' nonce' index index' h h' => Prg.input_eq_iff h h'
  · exact Prg.input_ne_absorbed
  · intro use use' s t h h'
    refine ⟨Use.absorbed_on_eq_iff hencode h h' s t, fun key nonce index => ?_⟩
    rw [← Use.transcript_script use h]
    exact Prg.input_ne_absorbed key nonce index _

open Transcript in
/-- Letters divided into label and data in two ways, and two base transfers of one session. -/
theorem sponge_inputs_separate_over_curve :
    let s : Script Point := ⟨Bytes.ofAscii "test",
      [.append (Bytes.ofAscii "ab") (Bytes.ofAscii "c"), .fork (Bytes.ofAscii "session") []],
      by decide, by decide⟩
    let t : Script Point := ⟨Bytes.ofAscii "test",
      [.append (Bytes.ofAscii "a") (Bytes.ofAscii "bc"), .fork (Bytes.ofAscii "session") []],
      by decide, by decide⟩
    (∀ p q : Point, PointGroup.encode p = PointGroup.encode q → p = q) ∧
    s.transcript.absorbed ≠ t.transcript.absorbed ∧
    ((Use.baseNonce 0 : Use Point).on s.transcript).absorbed ≠
      ((Use.baseNonce 1 : Use Point).on s.transcript).absorbed ∧
    Prg.input 1 0 0 ≠ Prg.input 1 0 1 ∧
    Prg.input 0 0 0 ≠ ((Use.padSalt : Use Point).on s.transcript).absorbed := by
  intro s t
  have hencode : ∀ p q : Point, PointGroup.encode p = PointGroup.encode q → p = q :=
    fun _ _ => Point.compressed_injective
  obtain ⟨hscripts, hgenerator, -, huses, -⟩ := sponge_inputs_separate hencode
  refine ⟨hencode, fun h => ?_, fun h => ?_, fun h => ?_, ?_⟩
  · exact absurd ((hscripts s t).1.1 h).2 (by decide)
  · have hfits (i : Nat) (hi : i < sizeLimit) : (Use.baseNonce i : Use Point).Fits := hi
    have huse := ((huses _ _ s s (hfits 0 (by decide)) (hfits 1 (by decide))).1.1 h).2.2
    exact absurd (Use.baseNonce.inj huse) (by decide)
  · exact absurd ((hgenerator _ _ _ _ 0 1 (by decide) (by decide)).1 h).2.2 (by decide)
  · exact (huses .padSalt .padSalt s s trivial trivial).2 0 0 0

end ObliviousTransfer
