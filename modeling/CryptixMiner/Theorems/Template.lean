import CryptixMiner.Miner.Template
import CryptixMiner.Theorems.Header
import CryptixMiner.Theorems.Target

/-! Which templates of a node get through `State::new`: a header that is there must be well formed, or one of the
    `unwrap`s of `serialize_header` panics. -/

namespace CryptixMiner
namespace Pow

/-! ### What the serialization demands -/

theorem digits_of_decodeToSlice {data : List UInt8} {outLen : Nat} (h : (decodeToSlice data outLen).toOption.isSome) :
    data.length % 2 = 0 ∧ data.length / 2 = outLen ∧ ∀ c ∈ data, Hex.IsDigit c := by
  unfold decodeToSlice at h
  split at h
  · cases h
  · next heven =>
    split at h
    · cases h
    · next hlen =>
      cases hpairs : Hex.decodePairs 0 data with
      | error e => simp [hpairs, Except.toOption] at h
      | ok bytes => exact ⟨not_not.mp heven, not_not.mp hlen, Hex.isDigit_of_decodePairs hpairs⟩

theorem hash32_isSome_iff {s : String} : (hash32 s).isSome ↔ IsHash s := by
  refine ⟨fun h => ?_, fun h => by rw [hash32_eq h]; rfl⟩
  obtain ⟨heven, hlen, hdigits⟩ := digits_of_decodeToSlice h
  exact ⟨by omega, hdigits⟩

theorem blueWorkBytes_isSome_iff {s : String} : (blueWorkBytes s).isSome ↔ IsBlueWork s := by
  refine ⟨fun h => ?_, fun h => by rw [blueWorkBytes_eq h]; rfl⟩
  unfold blueWorkBytes at h
  simp only at h
  split at h
  · cases h
  · next hfit =>
    obtain ⟨_, hbytes⟩ := Option.isSome_iff_exists.mp h
    obtain ⟨bytes, hdecode, -⟩ := Option.bind_eq_some_iff.mp hbytes
    obtain ⟨-, -, hdigits⟩ := digits_of_decodeToSlice (Option.isSome_of_mem hdecode)
    refine ⟨by omega, fun c hc => hdigits c ?_⟩
    split
    · exact hc
    · exact List.mem_cons_of_mem _ hc

theorem isSome_of_mapM {α β : Type} {f : α → Option β} : ∀ {l : List α}, (l.mapM f).isSome → ∀ a ∈ l, (f a).isSome
  | [], _ => nofun
  | a :: l, h => by
    rw [List.mapM_cons] at h
    obtain ⟨_, hsome⟩ := Option.isSome_iff_exists.mp h
    obtain ⟨b, hb, hsome⟩ := Option.bind_eq_some_iff.mp hsome
    obtain ⟨bs, hbs, -⟩ := Option.bind_eq_some_iff.mp hsome
    intro c hc
    rcases List.mem_cons.mp hc with rfl | hc
    · exact Option.isSome_of_mem hb
    · exact isSome_of_mapM (Option.isSome_of_mem hbs) c hc

theorem isHash_of_levelBytes {level : RustVec String} (h : (levelBytes level).isSome) :
    ∀ s ∈ level.toList, IsHash s := by
  obtain ⟨_, hsome⟩ := Option.isSome_iff_exists.mp h
  obtain ⟨hashes, hhashes, -⟩ := Option.bind_eq_some_iff.mp hsome
  exact fun s hs => hash32_isSome_iff.mp (isSome_of_mapM (Option.isSome_of_mem hhashes) s hs)

/-- The serialization gets through on well-formed headers and on no others. -/
theorem serializeHeader_isSome_iff {header : RpcBlockHeader} {forPrePow : Bool} :
    (serializeHeader header forPrePow).isSome ↔ WellFormed header := by
  refine ⟨fun h => ?_, fun h => by rw [serializeHeader_eq h]; rfl⟩
  obtain ⟨bytes, hbytes⟩ := Option.isSome_iff_exists.mp h
  simp only [serializeHeader, Option.bind_eq_bind] at hbytes
  by_cases hversion : header.version.toNat < 0x10000
  case neg =>
    rw [if_neg hversion] at hbytes
    cases hbytes
  rw [if_pos hversion, Option.bind_some] at hbytes
  obtain ⟨parents, hparents, hbytes⟩ := Option.bind_eq_some_iff.mp hbytes
  obtain ⟨hashMerkleRoot, hmerkle, hbytes⟩ := Option.bind_eq_some_iff.mp hbytes
  obtain ⟨acceptedIdMerkleRoot, haccepted, hbytes⟩ := Option.bind_eq_some_iff.mp hbytes
  obtain ⟨utxoCommitment, hutxo, hbytes⟩ := Option.bind_eq_some_iff.mp hbytes
  obtain ⟨blueWork, hblue, hbytes⟩ := Option.bind_eq_some_iff.mp hbytes
  obtain ⟨pruningPoint, hpruning, -⟩ := Option.bind_eq_some_iff.mp hbytes
  refine ⟨hversion, fun level hlevel => ?_, hash32_isSome_iff.mp (Option.isSome_of_mem hmerkle),
    hash32_isSome_iff.mp (Option.isSome_of_mem haccepted), hash32_isSome_iff.mp (Option.isSome_of_mem hutxo),
    blueWorkBytes_isSome_iff.mp (Option.isSome_of_mem hblue), hash32_isSome_iff.mp (Option.isSome_of_mem hpruning)⟩
  exact isHash_of_levelBytes (isSome_of_mapM (Option.isSome_of_mem hparents) level hlevel)

end Pow

/-! ### Templates -/

/-- The header is there and well formed. -/
def RpcBlock.WellFormed (block : RpcBlock) : Prop := ∃ header, block.header = some header ∧ Pow.WellFormed header

/-- `State::new` and `process_block` tell a template that is no good by an error, and no panic comes of it. -/
structure Reported (checks : Bool) (digest : List UInt8 → Hash) (generate : Hash → Matrix) (block : RpcBlock) : Prop where
  new_total : ∀ id, State.newOrPanic checks digest generate id (.fullBlock block) ≠ none
  new_ok : ∀ id, (∃ s, State.newOrPanic checks digest generate id (.fullBlock block) = some (.ok s)) ↔ block.WellFormed
  process_total : ∀ delivered (m : Miner.MinerManager),
    (m.processBlock checks digest generate delivered (some (.fullBlock block))).1 ≠ .panicked
  process_ok : ∀ delivered (m : Miner.MinerManager),
    (m.processBlock checks digest generate delivered (some (.fullBlock block))).1 = .ok ↔
      block.WellFormed ∧ delivered = true

section
variable {checks : Bool} {digest : List UInt8 → Hash} {generate : Hash → Matrix} {id : Nat} {block : RpcBlock}
  {header : RpcBlockHeader}

theorem headerInfo_isSome_iff : (State.headerInfo checks digest header).isSome ↔ Pow.WellFormed header := by
  obtain ⟨target, htarget, -⟩ := u256FromCompactTarget_eq checks header.bits
  have hserialize : (Pow.serializeHeader header true).isSome ↔ Pow.WellFormed header := Pow.serializeHeader_isSome_iff
  rw [← hserialize, State.headerInfo, htarget]
  cases Pow.serializeHeader header true <;> exact Iff.rfl

/-- A block without a header is refused; one with a header goes through or panics. -/
theorem newOrPanic_cases (checks : Bool) (digest : List UInt8 → Hash) (generate : Hash → Matrix) (id : Nat)
    (block : RpcBlock) :
    (block.header = none ∧
      State.newOrPanic checks digest generate id (.fullBlock block) = some (.error "Header is missing")) ∨
    (block.WellFormed ∧ ∃ s, State.newOrPanic checks digest generate id (.fullBlock block) = some (.ok s)) ∨
    (block.header ≠ none ∧ ¬block.WellFormed ∧
      State.newOrPanic checks digest generate id (.fullBlock block) = none) := by
  obtain ⟨_ | header, transactions, verboseData⟩ := block
  · exact Or.inl ⟨rfl, rfl⟩
  · have hiff : (State.headerInfo checks digest header).isSome ↔ Pow.WellFormed header := headerInfo_isSome_iff
    cases hinfo : State.headerInfo checks digest header with
    | some info =>
      refine Or.inr (Or.inl ⟨⟨header, rfl, hiff.mp (Option.isSome_of_mem hinfo)⟩, ?_⟩)
      simp [State.newOrPanic, State.new, State.builder, hinfo]
    | none =>
      refine Or.inr (Or.inr ⟨nofun, ?_, ?_⟩)
      · rintro ⟨_, heq, hwell⟩
        cases heq
        rw [hinfo] at hiff
        exact nomatch hiff.mpr hwell
      · simp [State.newOrPanic, hinfo]

theorem RpcBlock.WellFormed.header_ne {block : RpcBlock} (h : block.WellFormed) : block.header ≠ none := by
  obtain ⟨header, hheader, -⟩ := h
  rw [hheader]
  exact nofun

theorem reported_of_missing (h : block.header = none) : Reported checks digest generate block := by
  have hnew : ∀ id, State.newOrPanic checks digest generate id (.fullBlock block) = some (.error "Header is missing") :=
    fun id => by
      obtain ⟨-, hnew⟩ | ⟨hwell, -⟩ | ⟨hne, -, -⟩ := newOrPanic_cases checks digest generate id block
      · exact hnew
      · exact absurd h hwell.header_ne
      · exact absurd h hne
  have hnot : ¬block.WellFormed := fun hwell => hwell.header_ne h
  have hprocess : ∀ delivered (m : Miner.MinerManager),
      (m.processBlock checks digest generate delivered (some (.fullBlock block))).1 = .err "Header is missing" :=
    fun delivered m => by simp only [Miner.MinerManager.processBlock, hnew]
  refine ⟨fun id => by rw [hnew]; exact nofun, fun id => iff_of_false ?_ hnot, fun d m => by rw [hprocess]; exact nofun,
    fun d m => iff_of_false ?_ fun hand => hnot hand.1⟩
  · rintro ⟨s, hs⟩
    rw [hnew] at hs
    cases hs
  · rw [hprocess]
    exact nofun

theorem reported_of_wellFormed (h : block.WellFormed) : Reported checks digest generate block := by
  have hnew : ∀ id, ∃ s, State.newOrPanic checks digest generate id (.fullBlock block) = some (.ok s) := fun id => by
    obtain ⟨hnone, -⟩ | ⟨-, hnew⟩ | ⟨-, hnot, -⟩ := newOrPanic_cases checks digest generate id block
    · exact absurd hnone h.header_ne
    · exact hnew
    · exact absurd h hnot
  have hprocess : ∀ delivered (m : Miner.MinerManager),
      (m.processBlock checks digest generate delivered (some (.fullBlock block))).1 =
        if delivered then .ok else .err "Failed sending block to threads" := fun delivered m => by
    obtain ⟨s, hs⟩ := hnew m.currentStateId.toNat
    simp only [Miner.MinerManager.processBlock, hs, Miner.MinerManager.send]
    split <;> rfl
  refine ⟨fun id => ?_, fun id => iff_of_true (hnew id) h, fun delivered m => ?_, fun delivered m => ?_⟩
  · obtain ⟨s, hs⟩ := hnew id
    rw [hs]
    exact nofun
  · rw [hprocess]
    split <;> exact nofun
  · rw [hprocess]
    cases delivered <;> simp [h]

/-- A template is reported just when it has no header or a well-formed one. -/
theorem reported_iff (checks : Bool) (digest : List UInt8 → Hash) (generate : Hash → Matrix) (block : RpcBlock) :
    Reported checks digest generate block ↔
      block.header = none ∨ ∃ header, block.header = some header ∧ Pow.WellFormed header := by
  refine ⟨fun h => ?_, fun h => h.elim reported_of_missing reported_of_wellFormed⟩
  obtain ⟨hnone, -⟩ | ⟨hwell, -⟩ | ⟨-, -, hpanic⟩ := newOrPanic_cases checks digest generate 0 block
  · exact Or.inl hnone
  · exact Or.inr hwell
  · exact absurd hpanic (h.new_total 0)

/-- A header whose version does not fit in 16 bits. -/
def wideVersion : RpcBlockHeader :=
  { Pow.twoLevels "0123456789abcdef0123456789abcdef0123456789abcdef0123456789abcdef" "c3a1f" with version := 0x10000 }

theorem not_reported_wideVersion :
    ¬Reported false (fun _ => ⟨#v[0, 0, 0, 0]⟩) (fun _ => ⟨Vector.replicate 64 (Vector.replicate 64 0)⟩)
      ⟨some wideVersion, [], none⟩ := by
  have hbytes : Pow.serializeHeader wideVersion true = none := rfl
  refine fun h => h.new_total 0 ?_
  simp [State.newOrPanic, State.headerInfo, hbytes]

end
end CryptixMiner
