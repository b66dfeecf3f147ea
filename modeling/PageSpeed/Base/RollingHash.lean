import PageSpeed.Basic
import Mathlib.Data.List.GetD
import Mathlib.Data.List.Induction

/-!
The rolling hash of byte buffers (`kernel/base/rolling_hash.h`).
-/

namespace PageSpeed.RollingHash

def kRollingHashCharTable : Array (BitVec 64) := #[
  0xf0dcd27e0762b251, 0xb621e668da0b3d53, 0xce8c72d316e9293c, 0xe958017c3359bad5, 0x6b11ca3935e9bb14,
  0x64f67431b8b0bcb4, 0x8c4dd71ad988d23e, 0x24936d1c08aff78d, 0x69ecc7f3052e0396, 0xcdc8f08d999754c5,
  0x39ab6e32568685cd, 0x4e4f289b8b96e626, 0xa3c3cb4a32546b3d, 0xe929810fec372e4d, 0xfd94f0e82a05ac37,
  0x3b71322f12f04f66, 0x8ad767cc6b92f018, 0xb4fff19004481ff1, 0xc9a1422e55e9d8bb, 0x016fccc64de16d17,
  0xd27154733cd80e3e, 0x3f837bd6c3588413, 0x2c493e9f8c70ee0e, 0xb45526d0cdcae876, 0xfa8778e134e91383,
  0x0e8f821f8c783f69, 0xc28fd9493d9268e9, 0xf5b90b302376dc19, 0x12d5edf71944c0b9, 0x3de65234604d9f95,
  0x6e0b7823a5ab650f, 0xf30d1b84d74f542c, 0xd59ea7a1a04daa1e, 0xc322bb145da0eaee, 0x9f55e20e76bc821c,
  0x84eb8f72c858db2c, 0x0727b30ff9b3080f, 0x40cb8bf1f3e4114f, 0x379d10f1f0166fc2, 0x8766af09de794470,
  0x4cebe022f58b47f0, 0x75d232d0c4a94ebb, 0xc63ba1fbd098199c, 0xa0d947c29f383a9e, 0x3bfd354a0404e6de,
  0x9d3164f90bd471a3, 0x357f031c2b1cee0e, 0x47bb2d71880becd1, 0xc048dc946fd9dd85, 0xa21e8226ed9b2db9,
  0xad06169fbe3a05a9, 0x0a7b91d58f44e29b, 0x36bdd30c057a61ba, 0xcb78135eb2c3b107, 0xa65907ee1f4209dd,
  0x0962bb3ccf9816f2, 0xceb546dda951601e, 0x5e5769344a1f8f21, 0x1fe188e97a0685ee, 0x59d0d4289c5edacb,
  0xaa212857bb62f723, 0xa527e223de884ece, 0x9c9a15c9aa56eba4, 0x9b16d95901aee267, 0xf4c5b630931f11e9,
  0x3df802e7e85a6750, 0x4968f654cce17653, 0xfc3bc0ad02761567, 0xff18ec7e401c445d, 0x2f844385f9c31b7a,
  0x88d750f43c6989ed, 0x4bb020be66f231f9, 0x12502d671fa7f487, 0x1926420bae67fb5a, 0x2acb699d19d6c4d4,
  0x5cdb79d0349158ea, 0x67e93d1bf4815342, 0x43dc874f7024e36d, 0xb92097281fed49b6, 0x62ed4f7a0a6958a9,
  0x574c6b02ae6f3626, 0xd49b443e8932f23d, 0x7dc50d1a701aab7a, 0x48621174dff0fd92, 0x5746557ae580c35e,
  0x4bc7f97a8ebc2480, 0x07e620aad2f7b646, 0x1285636d57e3f612, 0x9f6cd306e5514c5c, 0x0de00632f6f709d7,
  0x7aa301698adee68b, 0x2df10184f4cfd4ec, 0x5f5b744cf78e8048, 0x88ebe0a2615fe4b3, 0xcb6f29a29401f98f,
  0x9c306f274e66d287, 0x88f632944f2ccdd9, 0x63bcf4a925db4311, 0xc6d2f5e9c0a50b72, 0xd6a731846a17be49,
  0x2fd613caa70c235e, 0x534de67031253fac, 0x4c685e47e9592796, 0x9b153e27865bd258, 0xd614462b61589f7d,
  0x1532cb94e28d8cbf, 0x91497f579632a631, 0x26e3a246cc96fb61, 0xb28d962661bf129b, 0x85da5d60a6ae5aa3,
  0x0a9a1f6cb7c3e6a0, 0xae039586bd8c7f11, 0x0bfd1a8454e77964, 0xd6fa6b85a423d107, 0x015c3ab5134f69fc,
  0xdab1025b8bed7c18, 0xdf404b3edca12395, 0xad3d2d77444e1887, 0x92654b67bda1e990, 0xc412fe06d4e29f1e,
  0x2d382f434b99af46, 0x8cb666ada86575a1, 0x833d4b153f5f5405, 0x6007f6c51629e797, 0xd8a1f922cba896e3,
  0x2c9b5a1a249f9e47, 0xd899781c79cb063b, 0x911f5c7513ea3c91, 0x0c77ae198ca79978, 0x20ba7b1e0c97d74c,
  0xb3711eccdd549521, 0x0a94dc19e59543df, 0x3b348e9c6b0e36a6, 0x9627b15951a7a6b8, 0x9193dc839dbe7049,
  0xba707aa6a2add40e, 0x1777251ac57b2a2a, 0xca6c2edba50c4c4f, 0xa6c43cd31526ff60, 0x310d05dff737a640,
  0xa8663ab4709bdd52, 0xd05f9d24885f3b94, 0x8c863ea5aafb221d, 0x21ef263381f8cd63, 0x4b6fb4a8bc5458aa,
  0xc1d84b559be971b0, 0x210fb1bab7f15072, 0xe66ee09a51a55963, 0x39c21db635c08deb, 0xf05b979841675d0d,
  0x2978a9f732d96470, 0x4dce978a19c3a1f1, 0x5c0e92ab7319cd99, 0x743b286678d9e686, 0xdaf46993e90a5e81,
  0x96dc2e0adcbb0d16, 0xd95690fe868663d8, 0x66ef0231433f2b39, 0x30774974792d96cc, 0x44ffb0e25c47c44e,
  0x4cd9b89be5889713, 0xe62e5a6014f07cf3, 0xb56ac85a8af4dea0, 0xde92b05ba2e1b34a, 0x23fd1311f823b78c,
  0xff80ac0f287ec43c, 0x5d90a3866dd95fc0, 0xdec51083823f593f, 0x86ad4349ac174fae, 0xaedff28454b16a41,
  0x3d8bc08e3f2e0c9d, 0xf86319f232a3c729, 0xcd5e5e0f94263499, 0x8d7ba52980b19b79, 0xa67e8a3d335c81d2,
  0x65d09ac6aa0fdab2, 0xc1795b7f5b644a20, 0xec83e7447c32d0dc, 0x6f90245af445f4ae, 0x56d70cadcc4a28fc,
  0xaf264eb82bcc4f90, 0xa16010fce3634aff, 0x8ea336b9c2c1e45b, 0x7680ddb84af244bb, 0xf97371315d450666,
  0x8166dfa721896adc, 0x3648e8d5b8d995d8, 0xa63975a605b31cf2, 0x35e60de4a3359ad4, 0x9b81705b2e4be07b,
  0xb9ae701a8eb85593, 0xaedecc0d138f3115, 0x8a1fdbb92e3423c1, 0xb0c96dee77615860, 0x629b7c06bf44e634,
  0x696eb82aa746b1e1, 0x02efce1165256d4f, 0x69d7a6b7150117a6, 0x9dcc2d6e896e5681, 0xcd815845d154cfbe,
  0x28ea53acb6da26f0, 0x7100bc4d21fe52df, 0x653e558ec969142f, 0x83d730de45a0f5d4, 0x3831dd5c5647e4b1,
  0x0f4072bf5123e9d5, 0xa642dce46ec285ee, 0xae995373b5193c28, 0xf0f3dafb8a611288, 0xbc482a9e9b15c5ab,
  0x41668ebcdc7cc0f4, 0xcdaaef0cd5519603, 0xebc0b08ad6d7c0e5, 0xb35073399de97c08, 0x97e4241d5f265b52,
  0x2e52578c54e99676, 0x288a75c28fad917b, 0x466e1dd37d710926, 0x25fd42c4845ce5fc, 0xe0a1137fa3234b76,
  0xfbfc21548eb90370, 0x8c4cf202e1e875fe, 0x9b7cd1e8a5aaa1a1, 0x2dec3dc9615ca561, 0xb4458b07977eea11,
  0x75cea1e7a8560366, 0x109bf4b3b2e39a46, 0xdf8ed90441ba266b, 0xd1856901e5f8bac7, 0x7a8b4ab2edd81a62,
  0xb1ae8556c90ae5cb, 0x42d15186c967771f, 0xa07cdf5a38a872a9, 0x986954db9832aceb, 0xf130e68aa4fce616,
  0xcc0caef3d0c76c52, 0x2c6a3fe49a7d500e, 0x076cb3ad48ed1b85, 0xe6f8d0aecbb14027, 0x2cbe5b65d4e5c490,
  0x9dac9ec2da0d12a7, 0x14ab4abbd07e5ab0, 0xae99ca6cb4cd1e03, 0x3bcd346450954fba, 0x2430fee89dd27a62,
  0x7dc551166f0c94f8, 0x87947cbebe2a5031, 0x67003a8dfe2fd1b0, 0xfed080735857b507, 0x5097a42c664d9bf9,
  0x9389590f671cf117, 0x9c5781b4f071956d, 0x9c16eac9bd72017a, 0x45186d635717d743, 0x3f375208bc7ce161,
  0x768cd5d30f885c47]

def charHash (c : UInt8) : BitVec 64 := kRollingHashCharTable.getD c.toNat 0

def rotateLeft1 (hash : BitVec 64) : BitVec 64 := (hash <<< 1) ||| (hash >>> 63)

/-- The hash of `buf[start : start + n - 1]`. -/
def rollingHash (buf : GoogleString) (start n : ℕ) : BitVec 64 :=
  ((buf.drop start).take n).foldl (fun hash c => rotateLeft1 hash ^^^ charHash c) 0#64

def nextRollingHash (buf : GoogleString) (start n : ℕ) (prev : BitVec 64) : BitVec 64 :=
  let startHash := charHash (buf.getD (start - 1) 0)
  let endHash := charHash (buf.getD (start - 1 + n) 0)
  let prevRot1 := (prev <<< 1) ||| (prev >>> 63)
  let shift := n % 64
  let startHashRotn := if shift = 0 then startHash else (startHash <<< shift) ||| (startHash >>> (64 - shift))
  startHashRotn ^^^ prevRot1 ^^^ endHash

theorem rotateLeft1_eq (x : BitVec 64) : rotateLeft1 x = x.rotateLeft 1 := by
  rw [BitVec.rotateLeft_def]
  rfl

theorem rotateLeft_bit (x : BitVec 64) (n : ℕ) {i : ℕ} (hi : i < 64) :
    (x.rotateLeft n).getLsbD i = x.getLsbD ((i + 64 - n % 64) % 64) := by
  have hn : n % 64 < 64 := Nat.mod_lt _ (by decide)
  rw [BitVec.getLsbD_rotateLeft]
  by_cases h : i < n % 64
  · have hindex : (i + 64 - n % 64) % 64 = 64 - n % 64 + i := by omega
    simp [h, hindex]
  · have hindex : (i + 64 - n % 64) % 64 = i - n % 64 := by omega
    simp [h, hi, hindex]

theorem rotateLeft_succ (x : BitVec 64) (n : ℕ) : (x.rotateLeft n).rotateLeft 1 = x.rotateLeft (n + 1) := by
  apply BitVec.eq_of_getLsbD_eq
  intro i hi
  have hmod : (i + 64 - 1 % 64) % 64 < 64 := Nat.mod_lt _ (by decide)
  rw [rotateLeft_bit _ 1 hi, rotateLeft_bit x n hmod, rotateLeft_bit x (n + 1) hi]
  congr 1
  omega

theorem rotateLeft1_xor (x y : BitVec 64) : rotateLeft1 (x ^^^ y) = rotateLeft1 x ^^^ rotateLeft1 y := by
  apply BitVec.eq_of_getLsbD_eq
  intro i hi
  simp only [rotateLeft1_eq, BitVec.getLsbD_xor, rotateLeft_bit _ 1 hi]

theorem rotateLeft_zero (x : BitVec 64) : x.rotateLeft 0 = x := by
  apply BitVec.eq_of_getLsbD_eq
  intro i hi
  rw [rotateLeft_bit x 0 hi]
  congr 1
  omega

theorem foldl_hash (buf : GoogleString) (hash : BitVec 64) :
    buf.foldl (fun hash c => rotateLeft1 hash ^^^ charHash c) hash =
      hash.rotateLeft buf.length ^^^ buf.foldl (fun hash c => rotateLeft1 hash ^^^ charHash c) 0#64 := by
  induction buf using List.reverseRecOn with
  | nil =>
    rw [List.foldl_nil, List.foldl_nil, List.length_nil, rotateLeft_zero, BitVec.xor_zero]
  | append_singleton buf c ih =>
    simp only [List.foldl_append, List.foldl_cons, List.foldl_nil, List.length_append, List.length_singleton]
    rw [ih, rotateLeft1_xor, rotateLeft1_eq, rotateLeft_succ, BitVec.xor_assoc]

theorem nextRollingHash_eq (buf : GoogleString) (start n : ℕ) (h : start + n < buf.length) :
    nextRollingHash buf (start + 1) n (rollingHash buf start n) = rollingHash buf (start + 1) n := by
  have hstart : buf.drop start = buf.getD start 0 :: buf.drop (start + 1) := by
    rw [List.getD_eq_getElem _ _ (by omega)]
    exact List.drop_eq_getElem_cons (by omega)
  have hend : (buf.drop start).take (n + 1) = (buf.drop start).take n ++ [buf.getD (start + n) 0] := by
    rw [List.take_add_one, List.getElem?_drop, List.getElem?_eq_getElem h, List.getD_eq_getElem _ _ h]
    rfl
  -- one byte more than either of the two windows
  have hboth : rotateLeft1 (rollingHash buf start n) ^^^ charHash (buf.getD (start + n) 0) =
      (charHash (buf.getD start 0)).rotateLeft n ^^^ rollingHash buf (start + 1) n := by
    have hwide := congrArg (List.foldl (fun hash c => rotateLeft1 hash ^^^ charHash c) 0#64) hend
    rw [List.foldl_append, hstart, List.take_succ_cons, List.foldl_cons, foldl_hash, ← hstart] at hwide
    have hlength : ((buf.drop (start + 1)).take n).length = n := by
      rw [List.length_take, List.length_drop]
      omega
    have hzero : rotateLeft1 0#64 = 0#64 := by decide
    rw [hlength, hzero, BitVec.zero_xor] at hwide
    exact hwide.symm
  have hrotn : (if n % 64 = 0 then charHash (buf.getD start 0) else
      (charHash (buf.getD start 0) <<< (n % 64)) ||| (charHash (buf.getD start 0) >>> (64 - n % 64))) =
      (charHash (buf.getD start 0)).rotateLeft n := by
    split_ifs with hzero
    · rw [← BitVec.rotateLeft_mod_eq_rotateLeft, hzero, rotateLeft_zero]
    · exact BitVec.rotateLeft_def.symm
  unfold nextRollingHash
  simp only [Nat.add_sub_cancel]
  rw [hrotn, BitVec.xor_assoc]
  change _ ^^^ (rotateLeft1 (rollingHash buf start n) ^^^ _) = _
  rw [hboth, ← BitVec.xor_assoc, BitVec.xor_self, BitVec.zero_xor]

end PageSpeed.RollingHash
