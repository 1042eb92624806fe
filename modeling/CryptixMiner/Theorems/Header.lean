import CryptixMiner.Lib.Encoding
import CryptixMiner.Pow.Header

/-! The header serialization is total and unambiguous on well-formed headers: each field is encoded so that
    it tells where it ends, by a fixed length or behind its count, and the encodings are composed. -/

namespace CryptixMiner.Pow
open Words Encoding

/-! ### Well-formed headers and what their bytes determine -/

def IsHash (s : String) : Prop := (Hex.bytes s).length = 64 ∧ ∀ c ∈ Hex.bytes s, Hex.IsDigit c

instance (s : String) : Decidable (IsHash s) := inferInstanceAs (Decidable (_ ∧ _))

def IsBlueWork (s : String) : Prop := (Hex.bytes s).length ≤ 64 ∧ ∀ c ∈ Hex.bytes s, Hex.IsDigit c

instance (s : String) : Decidable (IsBlueWork s) := inferInstanceAs (Decidable (_ ∧ _))

structure WellFormed (header : RpcBlockHeader) : Prop where
  version : header.version.toNat < 0x10000
  parents : ∀ level ∈ header.parents.toList, ∀ s ∈ level.toList, IsHash s
  hashMerkleRoot : IsHash header.hashMerkleRoot
  acceptedIdMerkleRoot : IsHash header.acceptedIdMerkleRoot
  utxoCommitment : IsHash header.utxoCommitment
  blueWork : IsBlueWork header.blueWork
  pruningPoint : IsHash header.pruningPoint

/-- Digits with a zero before them where their number is odd. -/
def evened (digits : List UInt8) : List UInt8 := if digits.length % 2 = 0 then digits else 0x30 :: digits

def SameHash (s t : String) : Prop := (Hex.bytes s).map Hex.lower = (Hex.bytes t).map Hex.lower

def SameBlueWork (s t : String) : Prop :=
  (evened (Hex.bytes s)).map Hex.lower = (evened (Hex.bytes t)).map Hex.lower

/-- Equal but for the nonce, the timestamp, the case of hex digits and a zero that evens out the blue work. -/
structure SameButNonceAndTimestamp (h h' : RpcBlockHeader) : Prop where
  version : h.version = h'.version
  parents : List.Forall₂ (fun l l' => List.Forall₂ SameHash l.toList l'.toList) h.parents.toList h'.parents.toList
  hashMerkleRoot : SameHash h.hashMerkleRoot h'.hashMerkleRoot
  acceptedIdMerkleRoot : SameHash h.acceptedIdMerkleRoot h'.acceptedIdMerkleRoot
  utxoCommitment : SameHash h.utxoCommitment h'.utxoCommitment
  bits : h.bits = h'.bits
  daaScore : h.daaScore = h'.daaScore
  blueScore : h.blueScore = h'.blueScore
  blueWork : SameBlueWork h.blueWork h'.blueWork
  pruningPoint : SameHash h.pruningPoint h'.pruningPoint

/-! ### Digits -/

theorem length_evened (digits : List UInt8) : (evened digits).length % 2 = 0 := by
  unfold evened
  split
  · assumption
  · rw [List.length_cons]
    omega

theorem length_evened_div (digits : List UInt8) : (evened digits).length / 2 = (digits.length + 1) / 2 := by
  unfold evened
  split
  · omega
  · rw [List.length_cons]

theorem isDigit_evened {digits : List UInt8} (h : ∀ c ∈ digits, Hex.IsDigit c) : ∀ c ∈ evened digits, Hex.IsDigit c := by
  unfold evened
  split
  · exact h
  · rintro c (_ | ⟨_, hc⟩)
    · decide
    · exact h c hc

theorem decodeToSlice_eq {digits : List UInt8} {outLen : Nat} (hdigits : ∀ c ∈ digits, Hex.IsDigit c)
    (heven : digits.length % 2 = 0) (hlen : digits.length / 2 = outLen) :
    decodeToSlice digits outLen = .ok (Hex.pack digits) := by
  rw [decodeToSlice, if_neg (by simpa using heven), if_neg (by simpa using hlen), Hex.decodePairs_eq 0 hdigits heven]

/-! ### The bytes of a well-formed header -/

def hashBytes (s : String) : List UInt8 := Hex.pack (Hex.bytes s)

/-- The bytes of the blue work, without their number. -/
def blueWorkDigits (s : String) : List UInt8 := Hex.pack (evened (Hex.bytes s))

theorem hash32_eq {s : String} (h : IsHash s) : hash32 s = some (hashBytes s) := by
  rw [hash32, decodeToSlice_eq h.2 (by rw [h.1]) (by rw [h.1])]
  rfl

theorem blueWorkBytes_eq {s : String} (h : IsBlueWork s) :
    blueWorkBytes s = some (lenBytes (blueWorkDigits s).length ++ (blueWorkDigits s).flatMap fun b => [b]) := by
  have hlen := length_evened_div (Hex.bytes s)
  have hfit : ¬32 < ((Hex.bytes s).length + 1) / 2 := by
    have := h.1
    omega
  have hdecode := decodeToSlice_eq (isDigit_evened h.2) (length_evened _) hlen
  rw [evened] at hdecode
  simp only [blueWorkBytes, if_neg hfit, hdecode, blueWorkDigits, Hex.length_pack, hlen, List.flatMap_singleton']
  rfl

theorem mapM_eq_some {α β : Type} {f : α → Option β} {g : α → β} :
    ∀ {l : List α}, (∀ a ∈ l, f a = some (g a)) → l.mapM f = some (l.map g)
  | [], _ => rfl
  | a :: l, h => by
    have hrest := mapM_eq_some (l := l) fun b hb => h b (List.mem_cons_of_mem a hb)
    rw [List.mapM_cons, h a List.mem_cons_self, hrest]
    rfl

theorem levelBytes_eq {level : RustVec String} (h : ∀ s ∈ level.toList, IsHash s) :
    levelBytes level = some (lenBytes level.toList.length ++ level.toList.flatMap hashBytes) := by
  rw [levelBytes, mapM_eq_some fun s hs => hash32_eq (h s hs), List.flatMap_def]
  rfl

/-- What `serializeHeader` outputs where nothing panics. -/
def headerBytes (forPrePow : Bool) (h : RpcBlockHeader) : List UInt8 :=
  leBytes 2 h.version.toUInt16.toBitVec ++ ((lenBytes h.parents.toList.length ++
    h.parents.toList.flatMap fun l => lenBytes l.toList.length ++ l.toList.flatMap hashBytes) ++
    (hashBytes h.hashMerkleRoot ++ (hashBytes h.acceptedIdMerkleRoot ++ (hashBytes h.utxoCommitment ++
      (leBytes 8 (if forPrePow then 0 else h.timestamp).toBitVec ++ (leBytes 4 h.bits.toBitVec ++
        (leBytes 8 (if forPrePow then 0 else h.nonce).toBitVec ++ (leBytes 8 h.daaScore.toBitVec ++
          (leBytes 8 h.blueScore.toBitVec ++ ((lenBytes (blueWorkDigits h.blueWork).length ++
            (blueWorkDigits h.blueWork).flatMap fun b => [b]) ++ hashBytes h.pruningPoint))))))))))

theorem serializeHeader_eq {h : RpcBlockHeader} (hw : WellFormed h) (forPrePow : Bool) :
    serializeHeader h forPrePow = some (headerBytes forPrePow h) := by
  have hparents := mapM_eq_some fun l hl => levelBytes_eq (hw.parents l hl)
  simp only [serializeHeader, if_pos hw.version, hparents, hash32_eq hw.hashMerkleRoot,
    hash32_eq hw.acceptedIdMerkleRoot, hash32_eq hw.utxoCommitment, blueWorkBytes_eq hw.blueWork,
    hash32_eq hw.pruningPoint, headerBytes, List.flatMap_def, List.append_assoc]
  rfl

/-! ### Where each field ends -/

theorem leBytes_delimits {w n : Nat} (hw : w ≤ 8 * n) : Delimits (fun _ => True) (leBytes (w := w) n) (· = ·) :=
  .of_length (n := n) (fun x _ => length_leBytes x) fun x y _ _ h => by
    have hbyte : ∀ k < n, leByte x k = leByte y k := fun k hk => by
      have hget := congrArg (·[k]?) h
      simpa [leBytes, hk] using hget
    rw [← ofLeBytes_leByte (x := x) hw, ofLeBytes_congr hbyte, ofLeBytes_leByte hw]

/-- No vector of Rust is too long for its length to be told. -/
theorem lenBytes_delimits : Delimits (· < 0x8000000000000000) lenBytes (· = ·) :=
  ((leBytes_delimits (by decide)).comp fun len => (UInt64.ofNat len).toBitVec).imp (fun _ _ => trivial)
    fun m n hm hn h => by
      have hnat := congrArg UInt64.toNat (UInt64.toBitVec_inj.mp h)
      rw [UInt64.toNat_ofNat', UInt64.toNat_ofNat'] at hnat
      omega

theorem hashBytes_delimits : Delimits IsHash hashBytes SameHash :=
  .of_length (n := 32) (fun s hs => by rw [hashBytes, Hex.length_pack, hs.1]) fun s t hs ht h =>
    Hex.map_lower_of_pack hs.2 ht.2 (by rw [hs.1]) (by rw [ht.1]) h

theorem levelBytes_delimits :
    Delimits (fun l : RustVec String => ∀ s ∈ l.toList, IsHash s)
      (fun l => lenBytes l.toList.length ++ l.toList.flatMap hashBytes)
      fun l l' => List.Forall₂ SameHash l.toList l'.toList :=
  ((Delimits.counted lenBytes_delimits hashBytes_delimits).comp RustVec.toList).imp
    (fun l hl => ⟨l.length_lt, hl⟩) fun _ _ _ _ h => h

theorem parentsBytes_delimits :
    Delimits (fun ls : RustVec (RustVec String) => ∀ l ∈ ls.toList, ∀ s ∈ l.toList, IsHash s)
      (fun ls => lenBytes ls.toList.length ++
        ls.toList.flatMap fun l => lenBytes l.toList.length ++ l.toList.flatMap hashBytes)
      fun ls ls' => List.Forall₂ (fun l l' => List.Forall₂ SameHash l.toList l'.toList) ls.toList ls'.toList :=
  ((Delimits.counted lenBytes_delimits levelBytes_delimits).comp RustVec.toList).imp
    (fun ls hls => ⟨ls.length_lt, hls⟩) fun _ _ _ _ h => h

theorem blueWorkBytes_delimits :
    Delimits IsBlueWork
      (fun s => lenBytes (blueWorkDigits s).length ++ (blueWorkDigits s).flatMap fun b => [b]) SameBlueWork := by
  have hbyte : Delimits (fun _ : UInt8 => True) (fun b => [b]) (· = ·) :=
    .of_length (n := 1) (fun _ _ => rfl) fun a b _ _ h => List.singleton_inj.mp h
  refine ((Delimits.counted lenBytes_delimits hbyte).comp blueWorkDigits).imp (fun s hs => ⟨?_, fun _ _ => trivial⟩)
    fun s t hs ht h => ?_
  · have hlen := hs.1
    rw [blueWorkDigits, Hex.length_pack, length_evened_div]
    omega
  · exact Hex.map_lower_of_pack (isDigit_evened hs.2) (isDigit_evened ht.2) (length_evened _) (length_evened _)
      (List.forall₂_eq_eq_eq ▸ h)

/-- The whole header: nonce and timestamp count where they are not cleared. -/
theorem headerBytes_delimits (forPrePow : Bool) :
    Delimits WellFormed (headerBytes forPrePow) fun h h' => SameButNonceAndTimestamp h h' ∧
      (forPrePow = false → h.nonce = h'.nonce ∧ h.timestamp = h'.timestamp) := by
  have hword (w n : Nat) (hw : w ≤ 8 * n) (f : RpcBlockHeader → BitVec w) :=
    (leBytes_delimits hw).comp f
  have hhash (f : RpcBlockHeader → String) := hashBytes_delimits.comp f
  refine ((hword 16 2 (by decide) fun h => h.version.toUInt16.toBitVec).append
    ((parentsBytes_delimits.comp RpcBlockHeader.parents).append
    ((hhash RpcBlockHeader.hashMerkleRoot).append ((hhash RpcBlockHeader.acceptedIdMerkleRoot).append
    ((hhash RpcBlockHeader.utxoCommitment).append
    ((hword 64 8 (by decide) fun h => (if forPrePow then 0 else h.timestamp).toBitVec).append
    ((hword 32 4 (by decide) fun h => h.bits.toBitVec).append
    ((hword 64 8 (by decide) fun h => (if forPrePow then 0 else h.nonce).toBitVec).append
    ((hword 64 8 (by decide) fun h => h.daaScore.toBitVec).append
    ((hword 64 8 (by decide) fun h => h.blueScore.toBitVec).append
    ((blueWorkBytes_delimits.comp RpcBlockHeader.blueWork).append
      (hhash RpcBlockHeader.pruningPoint)))))))))))).imp
      (fun h hw => ⟨trivial, hw.parents, hw.hashMerkleRoot, hw.acceptedIdMerkleRoot, hw.utxoCommitment, trivial, trivial,
        trivial, trivial, trivial, hw.blueWork, hw.pruningPoint⟩) ?_
  rintro h h' hw hw' ⟨hversion, hparents, hmerkle, haccepted, hutxo, htimestamp, hbits, hnonce, hdaa, hblue, hwork,
    hpruning⟩
  refine ⟨⟨?_, hparents, hmerkle, haccepted, hutxo, UInt32.toBitVec_inj.mp hbits, UInt64.toBitVec_inj.mp hdaa,
    UInt64.toBitVec_inj.mp hblue, hwork, hpruning⟩, fun hpre => ?_⟩
  · -- Both versions fit in 16 bits.
    have hnat := congrArg UInt16.toNat (UInt16.toBitVec_inj.mp hversion)
    rw [UInt32.toNat_toUInt16, UInt32.toNat_toUInt16] at hnat
    have := hw.version
    have := hw'.version
    rw [← UInt32.toNat_inj]
    omega
  · rw [hpre] at htimestamp hnonce
    exact ⟨UInt64.toBitVec_inj.mp hnonce, Int64.toBitVec_inj.mp htimestamp⟩

/-! ### The contract of the serialization -/

/-- On well-formed headers the serialization does not panic; the full one determines the header, the one
    before the proof of work determines it but for nonce and timestamp, and does not depend on these. -/
theorem serializeHeader_unambiguous {h h' : RpcBlockHeader} (hw : WellFormed h) (hw' : WellFormed h') :
    (∀ forPrePow, serializeHeader h forPrePow ≠ none) ∧
      (serializeHeader h false = serializeHeader h' false →
        SameButNonceAndTimestamp h h' ∧ h.nonce = h'.nonce ∧ h.timestamp = h'.timestamp) ∧
      (serializeHeader h true = serializeHeader h' true → SameButNonceAndTimestamp h h') ∧
      ∀ nonce timestamp, serializeHeader { h with nonce := nonce, timestamp := timestamp } true =
        serializeHeader h true := by
  have hsame (forPrePow : Bool) (heq : serializeHeader h forPrePow = serializeHeader h' forPrePow) :
      SameButNonceAndTimestamp h h' ∧ (forPrePow = false → h.nonce = h'.nonce ∧ h.timestamp = h'.timestamp) := by
    rw [serializeHeader_eq hw, serializeHeader_eq hw', Option.some.injEq] at heq
    exact (headerBytes_delimits forPrePow h h' [] [] hw hw' (by rw [heq])).1
  refine ⟨fun forPrePow hnone => ?_, fun heq => ?_, fun heq => (hsame true heq).1, fun _ _ => rfl⟩
  · rw [serializeHeader_eq hw] at hnone
    cases hnone
  · obtain ⟨hbut, hboth⟩ := hsame false heq
    exact ⟨hbut, hboth rfl⟩

def twoLevels (hash blueWork : String) : RpcBlockHeader where
  version := 1
  parents := ⟨[⟨[hash, hash], (by decide : 2 < 0x8000000000000000)⟩, ⟨[], by decide⟩],
    (by decide : 2 < 0x8000000000000000)⟩
  hashMerkleRoot := hash
  acceptedIdMerkleRoot := hash
  utxoCommitment := hash
  timestamp := 1725374568455
  bits := 0x1e7fffff
  nonce := 4433340
  daaScore := 12
  blueWork := blueWork
  pruningPoint := hash
  blueScore := 10

theorem wellFormed_twoLevels {hash blueWork : String} (hhash : IsHash hash) (hwork : IsBlueWork blueWork) :
    WellFormed (twoLevels hash blueWork) where
  version := (by decide : 1 < 0x10000)
  parents := by
    intro level hlevel s hs
    rcases List.mem_pair.mp hlevel with rfl | rfl
    · rcases List.mem_pair.mp hs with rfl | rfl <;> exact hhash
    · cases hs
  hashMerkleRoot := hhash
  acceptedIdMerkleRoot := hhash
  utxoCommitment := hhash
  blueWork := hwork
  pruningPoint := hhash

/-- The two headers differ in the case of their digits and in a leading zero. -/
theorem serializeHeader_unambiguous_twoLevels :
    let lower := twoLevels "0123456789abcdef0123456789abcdef0123456789abcdef0123456789abcdef" "c3a1f"
    let upper := twoLevels "0123456789ABCDEF0123456789ABCDEF0123456789ABCDEF0123456789ABCDEF" "0C3A1F"
    (∀ forPrePow, serializeHeader lower forPrePow ≠ none) ∧
      (serializeHeader lower false = serializeHeader upper false →
        SameButNonceAndTimestamp lower upper ∧ lower.nonce = upper.nonce ∧ lower.timestamp = upper.timestamp) ∧
      (serializeHeader lower true = serializeHeader upper true → SameButNonceAndTimestamp lower upper) ∧
      ∀ nonce timestamp, serializeHeader { lower with nonce := nonce, timestamp := timestamp } true =
        serializeHeader lower true :=
  serializeHeader_unambiguous (wellFormed_twoLevels (by decide +kernel) (by decide +kernel))
    (wellFormed_twoLevels (by decide +kernel) (by decide +kernel))

end CryptixMiner.Pow
