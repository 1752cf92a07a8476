import MinionSubsystem.SdCmdSerialHost
import MinionSubsystem.SdDataSerialHost

/-!
# The checks of the two hosts detect bursts

`READ_DAT` compares the register of `sd_crc_16` with the word received behind a
lane's bits, `READ` the register of `sd_crc_7` with the last seven bits of the
response. An error within as many consecutive bits as the register has, wherever
it hits bits and check word, fails the comparison.
-/

namespace MinionSubsystem.SdCrcBurst

open MinionSubsystem.BitStream
open MinionSubsystem.CyclicCode
open MinionSubsystem.SdCrc

set_option autoImplicit false

def sdCrc16Run (message : List Bool) : BitVec 16 :=
  message.foldl (fun crc bitval => sdCrc16Edge bitval true false crc) 0

def sdCrc7Run (message : List Bool) : BitVec 7 :=
  message.foldl (fun crc bitval => sdCrc7Edge bitval true false crc) 0

theorem sd_crc_16_run (message : List Bool) : sdCrc16Run message = crc16 message := by
  induction message using List.reverseRecOn with
  | nil => rfl
  | append_singleton message bit ih =>
      rw [← sd_crc_16_extends, ← ih]
      exact List.foldl_concat _ _ _ _

theorem sd_crc_7_run (message : List Bool) : sdCrc7Run message = crc7 message := by
  induction message using List.reverseRecOn with
  | nil => rfl
  | append_singleton message bit ih =>
      rw [← sd_crc_7_extends, ← ih]
      exact List.foldl_concat _ _ _ _

def sent16 (message : List Bool) : List Bool := message ++ wireBits (sdCrc16Run message)

def sent7 (message : List Bool) : List Bool := message ++ wireBits (sdCrc7Run message)

/-- The edge of `READ_DAT` that judges the lanes: `lane` has divided the bits received
and has gathered the word behind them. -/
structure LaneJudged (lane : Fin 4) (bits word : List Bool) (i : SdDataSerialHost.Inputs)
    (s : SdDataSerialHost.State) : Prop where
  running : SdDataSerialHost.Running i
  reading : s.state = .readDat
  bitsRead : ¬SdDataSerialHost.wide s.transfCnt < SdDataSerialHost.wide s.dataCycles - 2
  wordRead : s.crcC = 0x1F
  divided : s.crcCalc lane = sdCrc16Run bits
  gathered : s.crcDin lane = concatBits 16 word

structure ResponseJudged (bits word : List Bool) (i : SdCmdSerialHost.Inputs)
    (s : SdCmdSerialHost.State) : Prop where
  running : i.rst = false
  reading : s.state = .read
  received : ¬s.counter.toNat ≤ SdCmdSerialHost.respLen i.settingI + 7
  divided : s.crcValO = sdCrc7Run bits
  gathered : s.responseO.extractLsb' 0 7 = concatBits 7 word

theorem lane_judged {lane : Fin 4} {bits word : List Bool} {i : SdDataSerialHost.Inputs}
    {s : SdDataSerialHost.State} (judged : LaneJudged lane bits word i s) :
    (SdDataSerialHost.step i s).crcLaneOk.getLsbD lane =
      decide (sdCrc16Run bits = concatBits 16 word) := by
  have edge : SdDataSerialHost.caseEdge i s = SdDataSerialHost.readDone i s := by
    simp only [SdDataSerialHost.caseEdge, judged.reading, SdDataSerialHost.readDatEdge,
      judged.bitsRead, judged.wordRead, ne_eq, not_true_eq_false, if_false]
  have compared : ((SdDataSerialHost.readDone i s).crcLaneOk).getLsbD lane =
      decide (s.crcCalc lane = s.crcDin lane) := by
    rw [SdDataSerialHost.readDone, concat_bits_getLsbD _ _ lane.isLt lane.isLt]
    fin_cases lane <;> rfl
  rw [SdDataSerialHost.step_running i s judged.running, edge, ← judged.divided, ← judged.gathered]
  exact compared

theorem response_judged {bits word : List Bool} {i : SdCmdSerialHost.Inputs}
    {s : SdCmdSerialHost.State} (judged : ResponseJudged bits word i s) :
    (SdCmdSerialHost.step i s).crcOkO = decide (concatBits 7 word = sdCrc7Run bits) := by
  rw [SdCmdSerialHost.step_running i s judged.running]
  simp only [SdCmdSerialHost.outEdge, judged.reading, SdCmdSerialHost.readEdge, judged.received,
    if_false, judged.divided, judged.gathered]

/-- A burst of up to 16 bits on a message and its CRC-16, or of up to 7 bits on one and
its CRC-7, leaves a register that differs from the word received, and the host says so. -/
theorem bursts_detected (message error : List Bool) :
    (Burst 16 (sent16 message) error →
      sdCrc16Run ((corrupt (sent16 message) error).take message.length) ≠
          concatBits 16 ((corrupt (sent16 message) error).drop message.length) ∧
        ∀ lane i s,
          LaneJudged lane ((corrupt (sent16 message) error).take message.length)
            ((corrupt (sent16 message) error).drop message.length) i s →
          (SdDataSerialHost.step i s).crcLaneOk.getLsbD lane = false) ∧
      (Burst 7 (sent7 message) error →
        sdCrc7Run ((corrupt (sent7 message) error).take message.length) ≠
            concatBits 7 ((corrupt (sent7 message) error).drop message.length) ∧
          ∀ i s,
            ResponseJudged ((corrupt (sent7 message) error).take message.length)
              ((corrupt (sent7 message) error).drop message.length) i s →
            (SdCmdSerialHost.step i s).crcOkO = false) := by
  constructor
  · intro burst
    have detected : sdCrc16Run ((corrupt (sent16 message) error).take message.length) ≠
        concatBits 16 ((corrupt (sent16 message) error).drop message.length) := by
      rw [sent16, sd_crc_16_run] at burst
      rw [sent16, sd_crc_16_run, sd_crc_16_run]
      exact burst_detected taps16 (by decide) message error burst
    refine ⟨detected, ?_⟩
    intro lane i s judged
    rw [lane_judged judged]
    exact decide_eq_false detected
  · intro burst
    have detected : sdCrc7Run ((corrupt (sent7 message) error).take message.length) ≠
        concatBits 7 ((corrupt (sent7 message) error).drop message.length) := by
      rw [sent7, sd_crc_7_run] at burst
      rw [sent7, sd_crc_7_run, sd_crc_7_run]
      exact burst_detected taps7 (by decide) message error burst
    refine ⟨detected, ?_⟩
    intro i s judged
    rw [response_judged judged]
    exact decide_eq_false detected.symm

private def flippedWord : List Bool :=
  List.replicate 5 false ++ List.replicate 16 true ++ List.replicate 19 false

/-- The last bit of the message and the first six of its check word. -/
private def flippedSeam : List Bool :=
  List.replicate 23 false ++ List.replicate 7 true ++ List.replicate 1 false

private def zeroMessage : List Bool := List.replicate 24 false

private theorem flipped_word_burst : Burst 16 (sent16 zeroMessage) flippedWord where
  length := by decide
  nonzero := by decide
  window := ⟨5, window_of_pattern (by decide)⟩

private theorem flipped_seam_burst : Burst 7 (sent7 zeroMessage) flippedSeam where
  length := by decide
  nonzero := by decide
  window := ⟨23, window_of_pattern (by decide)⟩

private def judgingInputs : SdDataSerialHost.Inputs where
  rst := false
  start := 2
  timeoutI := 1000
  datDatI := 0
  blksize := 0
  bus4bit := false
  dataIn := 0

private def judgingHost (bits word : List Bool) : SdDataSerialHost.State :=
  { SdDataSerialHost.afterReset with
    state := .readDat
    crcC := 0x1F
    dataCycles := 2
    crcCalc := fun _ => sdCrc16Run bits
    crcDin := fun _ => concatBits 16 word }

private theorem judging_host_judged (bits word : List Bool) :
    LaneJudged 0 bits word judgingInputs (judgingHost bits word) where
  running := ⟨rfl, by decide⟩
  reading := rfl
  bitsRead := by
    change ¬SdDataSerialHost.wide SdDataSerialHost.afterReset.transfCnt <
      SdDataSerialHost.wide 2 - 2
    decide
  wordRead := rfl
  divided := rfl
  gathered := rfl

theorem bursts_detected_in_zeros :
    (SdDataSerialHost.step judgingInputs
        (judgingHost ((corrupt (sent16 zeroMessage) flippedWord).take 24)
          ((corrupt (sent16 zeroMessage) flippedWord).drop 24))).crcLaneOk.getLsbD 0 = false ∧
      sdCrc7Run ((corrupt (sent7 zeroMessage) flippedSeam).take 24) ≠
        concatBits 7 ((corrupt (sent7 zeroMessage) flippedSeam).drop 24) :=
  ⟨((bursts_detected zeroMessage flippedWord).1 flipped_word_burst).2 0 _ _
      (judging_host_judged _ _),
    ((bursts_detected zeroMessage flippedSeam).2 flipped_seam_burst).1⟩

end MinionSubsystem.SdCrcBurst
