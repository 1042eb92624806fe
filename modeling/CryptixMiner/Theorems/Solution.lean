import CryptixMiner.Client.Stratum
import CryptixMiner.Miner.Site
import CryptixMiner.Theorems.Template

/-! What a block or share that was found is worth: read from scratch, with a nonce of its own, it is the job that it
    was made of, and its nonce meets the target. -/

namespace CryptixMiner
open Miner (Setting)

/-- `b` is `seed` with this nonce; a share has a text of its hash too. -/
inductive BlockSeed.WithNonce (nonce : UInt64) : BlockSeed RpcBlock → BlockSeed RpcBlock → Prop
  | full (header : RpcBlockHeader) (transactions : List RpcTransaction) (verboseData : Option RpcBlockVerboseData) :
    WithNonce nonce (.fullBlock ⟨some header, transactions, verboseData⟩)
      (.fullBlock ⟨some { header with nonce := nonce }, transactions, verboseData⟩)
  | share (id : String) (headerHash : Hash) (timestamp nonce₀ : UInt64) (target : Uint256)
      (nonceMask nonceFixed : UInt64) (hash₀ hash : Option String) :
    WithNonce nonce (.partialBlock id headerHash timestamp nonce₀ target nonceMask nonceFixed hash₀)
      (.partialBlock id headerHash timestamp nonce target nonceMask nonceFixed hash)

def BlockSeed.hash? : BlockSeed RpcBlock → Option String
  | .fullBlock _ => none
  | .partialBlock _ _ _ _ _ _ _ hash => hash

/-- `b` solves `seed`: its nonce meets the target of the job, whoever makes a job of `b` finds that it passes, and
    the text of a share's hash is that of the hash. -/
structure Miner.Setting.Solves (E : Setting) (seed b : BlockSeed RpcBlock) (nonce : UInt64) : Prop where
  withNonce : seed.WithNonce nonce b
  meets : ∃ id s, E.newOrPanic id seed = some (.ok s) ∧ s.checkPow E.primitives E.useAvx2 nonce = true
  passes : ∀ id, ∃ s, E.newOrPanic id b = some (.ok s) ∧ s.checkPow E.primitives E.useAvx2 nonce = true ∧
    ∀ text ∈ b.hash?, Stratum.StratumHandler.hex32ToU64x4 text = .ok (s.calculatePow E.primitives E.useAvx2 nonce)

section
variable {E : Setting} {id : Nat} {seed b : BlockSeed RpcBlock} {s : State RpcBlock} {nonce : UInt64}

theorem Uint256.hex32_lowerHex (x : Uint256) : Stratum.StratumHandler.hex32ToU64x4 x.lowerHex = .ok x := by
  have hdecode : Hex.decode (Hex.bytes x.lowerHex) = .ok x.toLeBytes.toList := Hex.decode_formatBytes _
  have hbytes : (Vector.ofFn fun i : Fin 32 => x.toLeBytes.toList[i.val]!) = x.toLeBytes := by
    refine Vector.ext fun i hi => ?_
    rw [Vector.getElem_ofFn, getElem!_pos _ _ (by rwa [Vector.length_toList]), Vector.getElem_toList]
  unfold Stratum.StratumHandler.hex32ToU64x4
  split
  · next rest heq =>
    -- There is no digit in place of the `x`.
    have hx : (0x78 : UInt8) ∈ Hex.bytes x.lowerHex := by
      rw [heq]
      exact List.mem_cons_of_mem _ (List.mem_cons_self ..)
    exact absurd (Hex.isDigit_of_mem_formatBytes hx) (by decide)
  · dsimp only
    rw [hdecode]
    dsimp only
    rw [if_pos x.toLeBytes.length_toList, hbytes, fromLeBytes_toLeBytes]

theorem State.new_of_newOrPanic (h : E.newOrPanic id seed = some (.ok s)) :
    State.new (State.builder E.checks E.digest E.generate) id seed = .ok s := by
  unfold Setting.newOrPanic State.newOrPanic at h
  split at h
  · obtain ⟨info, -, hinfo⟩ := Option.map_eq_some_iff.mp h
    exact hinfo
  · exact Option.some.inj h
  · exact Option.some.inj h

theorem State.block_of_new (h : E.newOrPanic id seed = some (.ok s)) : s.block = seed := by
  have hnew := State.new_of_newOrPanic h
  unfold State.new at hnew
  split at hnew
  · split at hnew
    · cases hnew
    · cases hnew
      rfl
  · cases hnew
    rfl

/-- What `State::new` reads of a header is the same with any nonce. -/
theorem State.headerInfo_nonce (checks : Bool) (digest : List UInt8 → Hash) (header : RpcBlockHeader) (nonce : UInt64) :
    headerInfo checks digest { header with nonce := nonce } = headerInfo checks digest header := rfl

theorem State.newOrPanic_full {header : RpcBlockHeader} {transactions : List RpcTransaction}
    {verboseData : Option RpcBlockVerboseData} :
    E.newOrPanic id (.fullBlock ⟨some header, transactions, verboseData⟩) = some (.ok s) ↔
      ∃ info, headerInfo E.checks E.digest header = some info ∧
        s = ofParts (builder E.checks E.digest E.generate) id (.fullBlock ⟨some header, transactions, verboseData⟩)
          info.prePowHash info.timestamp info.target 0xffffffffffffffff 0 := by
  rw [Setting.newOrPanic, newOrPanic, Option.map_eq_some_iff]
  refine exists_congr fun info => and_congr_right fun hinfo => ?_
  have hheader : (builder E.checks E.digest E.generate).header ⟨some header, transactions, verboseData⟩ = some info := hinfo
  rw [new, hheader]
  exact ⟨fun h => (Except.ok.inj h).symm, fun h => by rw [h]⟩

theorem State.newOrPanic_withNonce (hb : seed.WithNonce nonce b) (h : E.newOrPanic id seed = some (.ok s)) (id' : Nat) :
    E.newOrPanic id' b = some (.ok { s with id := id', block := b }) := by
  cases hb with
  | full header transactions verboseData =>
    obtain ⟨info, hinfo, rfl⟩ := newOrPanic_full.mp h
    exact newOrPanic_full.mpr ⟨info, (headerInfo_nonce ..).trans hinfo, rfl⟩
  | share =>
    cases h
    rfl

/-- The header is there, and the block that is found solves the job. -/
theorem State.generateBlockIfPow_cases (h : E.newOrPanic id seed = some (.ok s)) (nonce : UInt64) :
    (E.generateBlockIfPow s nonce = some none ∧ s.checkPow E.primitives E.useAvx2 nonce = false) ∨
    (s.checkPow E.primitives E.useAvx2 nonce = true ∧
      ∃ b, E.generateBlockIfPow s nonce = some (some b) ∧ E.Solves seed b nonce) := by
  have hblock := block_of_new h
  unfold Setting.generateBlockIfPow generateBlockIfPow
  rw [hblock]
  cases hpow : s.checkPow E.primitives E.useAvx2 nonce with
  | false => exact Or.inl ⟨rfl, rfl⟩
  | true =>
    refine Or.inr ⟨rfl, ?_⟩
    have hsolves {b : BlockSeed RpcBlock} (hb : seed.WithNonce nonce b)
        (hhash : ∀ text ∈ b.hash?, text = (s.calculatePow E.primitives E.useAvx2 nonce).lowerHex) :
        E.Solves seed b nonce := by
      refine ⟨hb, ⟨id, s, h, hpow⟩, fun id' => ⟨_, newOrPanic_withNonce hb h id', hpow, fun text htext => ?_⟩⟩
      rw [hhash text htext]
      exact Uint256.hex32_lowerHex _
    rcases seed with ⟨⟨_ | header, transactions, verboseData⟩⟩ | ⟨jobId, headerHash, timestamp, nonce₀, target, nonceMask, nonceFixed, hash⟩
    · cases h
    · exact ⟨_, rfl, hsolves (.full header transactions verboseData) nofun⟩
    · exact ⟨_, rfl, hsolves (.share ..) fun text htext => (Option.some.inj htext).symm⟩

/-- The report fails only where the calendar does not reach. -/
theorem Miner.Setting.Solves.reportBlock (h : E.Solves seed b nonce) (hnone : b.reportBlock E.digest E.date = none) :
    ∃ block header, b = .fullBlock block ∧ block.header = some header ∧ E.date header.timestamp.toUInt64 = none := by
  obtain ⟨s, hnew, -⟩ := h.passes 0
  rcases b with ⟨⟨_ | header, transactions, verboseData⟩⟩ | _
  · cases hnew
  · refine ⟨_, header, rfl, rfl, ?_⟩
    obtain ⟨info, hinfo, -⟩ := State.newOrPanic_full.mp hnew
    have hwell : Pow.WellFormed header := headerInfo_isSome_iff.mp (Option.isSome_of_mem hinfo)
    have hbytes := Pow.serializeHeader_eq hwell false
    simp only [BlockSeed.reportBlock, RpcBlock.blockHash, hbytes] at hnone
    cases hdate : E.date header.timestamp.toUInt64 with
    | none => rfl
    | some blockTime => simp [hdate] at hnone
  · cases hnone

end

/-- Every hash is zero here. -/
def Miner.zeroHashes : Setting where
  checks := false
  digest _ := ⟨Vector.replicate 4 0⟩
  generate _ := ⟨Vector.replicate 64 (Vector.replicate 64 0)⟩
  primitives := ⟨fun _ => Vector.replicate 25 0, id, id⟩
  useAvx2 := false
  date _ := some "today"

end CryptixMiner
