import Dnsmark.Common.Text
import Mathlib.Data.List.Range

/-!
# Lists of CPUs

The kernel prints a set of CPUs as ranges, such as `0-9,20-29`.  Two functions read such a list:
`logical_cpus_for_node` of `src/autodetect.rs`, for the mask the process is confined to, and
`nic_local_logical_cpus` of `src/transport/xdp/receiver.rs`, for the threads that receive.  Neither
reports an error: a part that is not a number or a range is passed over.
-/

namespace Dnsmark.CpuList

/-! ## The readers -/

/-- The CPUs of `a..=b`. -/
def rangeInclusive (a b : ℕ) : List ℕ := List.range' a (b + 1 - a)

/-- The body of both loops. -/
def pushPart (v : List ℕ) (part : Text) : List ℕ :=
  match Text.splitOnce '-' part with
  | some (a, b) =>
    match Text.parseUsize a.trim, Text.parseUsize b.trim with
    | some a, some b => v ++ rangeInclusive a b
    | _, _ => v
  | none =>
    match Text.parseUsize part.trim with
    | some a => v ++ [a]
    | none => v

/-- `nic_local_logical_cpus`, with the file `local_cpulist` of the NIC. -/
def nicLocalLogicalCpus (localCpulist : Option Text) : List ℕ :=
  ((localCpulist.getD []).trim.splitOn ',').foldl pushPart []

/-- `logical_cpus_for_node`, with the file `cpulist` of the node: an empty part is not looked at. -/
def logicalCpusForNode (cpulist : Option Text) : List ℕ :=
  ((cpulist.getD []).trim.splitOn ',').foldl (fun v part => if part = [] then v else pushPart v part) []

/-- `recv_cpu`: the CPU of the thread that receives on queue `q`, in the upper half of the list.  The
outer `none` is a panic, the inner one a thread that is not pinned. -/
def recvCpu (localCpus : List ℕ) (q : ℕ) : Option (Option ℕ) :=
  if 2 ≤ localCpus.length then
    let half := localCpus.length / 2
    (localCpus[half + q % half]?).map some
  else some none

/-! ## The format -/

/-- A range of CPUs, as numbers of the machine. -/
structure Range where
  first : ℕ
  last : ℕ
  first_le : first ≤ last
  last_lt : last < 2 ^ 64

namespace Range

/-- The CPUs of a range. -/
def cpus (r : Range) : List ℕ := rangeInclusive r.first r.last

/-- A range as the kernel prints it: one CPU is printed as its number. -/
def render (r : Range) : Text :=
  if r.first = r.last then Text.decimal r.first else Text.decimal r.first ++ '-' :: Text.decimal r.last

end Range

/-- A list of ranges as the kernel prints it, with the end of the line. -/
def render (rs : List Range) : Text := [','].intercalate (rs.map Range.render) ++ ['\n']

/-! ## What is read is what was printed -/

section Characters

variable {n : ℕ} {c : Char}

theorem not_mem_decimal (h : c.isDigit = false) : c ∉ Text.decimal n := fun hc => by
  rw [Text.isDigit_of_mem_decimal hc] at h
  cases h

theorem not_isWhitespace_of_isDigit (h : c.isDigit = true) : ¬ Text.isWhitespace c = true := by
  have hrange : 48 ≤ c.toNat ∧ c.toNat ≤ 57 := by
    simp only [Char.isDigit, Bool.and_eq_true, decide_eq_true_eq, ge_iff_le, UInt32.le_iff_toNat_le] at h
    exact h
  simp only [Text.isWhitespace, Bool.or_eq_true, Bool.and_eq_true, decide_eq_true_eq, beq_iff_eq]
  omega

theorem trim_decimal (n : ℕ) : (Text.decimal n).trim = Text.decimal n :=
  Text.trim_eq_self fun _ hc => not_isWhitespace_of_isDigit (Text.isDigit_of_mem_decimal hc)

theorem mem_render_range {r : Range} (h : c ∈ r.render) : c.isDigit = true ∨ c = '-' := by
  unfold Range.render at h
  split at h
  · exact .inl (Text.isDigit_of_mem_decimal h)
  · rcases List.mem_append.mp h with h | h
    · exact .inl (Text.isDigit_of_mem_decimal h)
    · exact (List.mem_cons.mp h).symm.imp Text.isDigit_of_mem_decimal id

/-- Neither a comma nor whitespace is in a printed range. -/
theorem not_mem_render_range {r : Range} (hdigit : c.isDigit = false) (hminus : c ≠ '-') :
    c ∉ r.render := fun h =>
  (mem_render_range h).elim (fun h => by rw [h] at hdigit; cases hdigit) hminus

end Characters

/-- One printed range is read. -/
theorem pushPart_render (v : List ℕ) (r : Range) : pushPart v r.render = v ++ r.cpus := by
  have hminus : ∀ n, '-' ∉ Text.decimal n := fun n => not_mem_decimal (by decide)
  have hfirst := Text.parseUsize_decimal (r.first_le.trans_lt r.last_lt)
  have hlast := Text.parseUsize_decimal r.last_lt
  unfold Range.render
  split
  · next heq =>
    have hcpus : r.cpus = [r.first] := by
      rw [Range.cpus, rangeInclusive, ← heq, Nat.add_sub_cancel_left]
      rfl
    simp only [pushPart, Text.splitOnce_eq_none (hminus _), trim_decimal, hfirst, hcpus]
  · simp only [pushPart, Text.splitOnce_append (hminus _), trim_decimal, hfirst, hlast]
    rfl

theorem foldl_pushPart_render (rs : List Range) (v : List ℕ) :
    (rs.map Range.render).foldl pushPart v = v ++ rs.flatMap Range.cpus := by
  induction rs generalizing v with
  | nil => exact (List.append_nil v).symm
  | cons r rs ih =>
    rw [List.map_cons, List.foldl_cons, pushPart_render, ih, List.flatMap_cons, List.append_assoc]

/-- The parts of a printed list are its ranges; a list without ranges has one part, which is empty. -/
theorem splitOn_trim_render (rs : List Range) :
    (render rs).trim.splitOn ',' = if rs = [] then [[]] else rs.map Range.render := by
  have hblank : ∀ c ∈ [','].intercalate (rs.map Range.render), ¬ Text.isWhitespace c = true := by
    intro c hc
    obtain rfl | ⟨part, hpart, hc⟩ := Text.mem_intercalate hc
    · decide
    · obtain ⟨r, -, rfl⟩ := List.mem_map.mp hpart
      obtain hdigit | rfl := mem_render_range hc
      · exact not_isWhitespace_of_isDigit hdigit
      · decide
  rw [render, Text.trim_concat hblank (by decide)]
  split
  · next hnil =>
    subst hnil
    rfl
  · next hne =>
    refine List.splitOn_intercalate ',' ?_ (mt List.map_eq_nil_iff.mp hne)
    rw [List.forall_mem_map]
    exact fun r _ => not_mem_render_range (by decide) (by decide)

theorem nicLocalLogicalCpus_render (rs : List Range) :
    nicLocalLogicalCpus (some (render rs)) = rs.flatMap Range.cpus := by
  rw [nicLocalLogicalCpus, Option.getD_some, splitOn_trim_render]
  split
  · next hnil =>
    subst hnil
    decide
  · exact foldl_pushPart_render rs []

/-- An empty part has no number. -/
theorem pushPart_nil (v : List ℕ) : pushPart v [] = v := rfl

theorem logicalCpusForNode_eq (cpulist : Option Text) :
    logicalCpusForNode cpulist = nicLocalLogicalCpus cpulist := by
  unfold logicalCpusForNode nicLocalLogicalCpus
  congr 1
  funext v part
  split
  · next hnil => rw [hnil, pushPart_nil]
  · rfl

/-! ## The threads that receive -/

theorem mem_cpus {r : Range} {c : ℕ} : c ∈ r.cpus ↔ r.first ≤ c ∧ c ≤ r.last := by
  have := r.first_le
  rw [Range.cpus, rangeInclusive, List.mem_range'_1]
  omega

/-- Ranges in ascending order have their CPUs in ascending order. -/
theorem pairwise_lt_flatMap_cpus {rs : List Range} (h : rs.Pairwise fun r s => r.last < s.first) :
    (rs.flatMap Range.cpus).Pairwise (· < ·) := by
  refine List.pairwise_flatMap.mpr ⟨fun r _ => List.pairwise_lt_range', h.imp fun {r s} hlt a ha b hb => ?_⟩
  exact ((mem_cpus.mp ha).2.trans_lt hlt).trans_le (mem_cpus.mp hb).1

section Receivers

variable {localCpus : List ℕ} (h : 2 ≤ localCpus.length)
include h

/-- A receiver's CPU is in the upper half of the list. -/
theorem recvCpu_eq (q : ℕ) :
    ∃ c, recvCpu localCpus q = some (some c) ∧
      (localCpus.drop (localCpus.length / 2))[q % (localCpus.length / 2)]? = some c := by
  have hhalf : 0 < localCpus.length / 2 := Nat.div_pos h (by decide)
  have hlt : localCpus.length / 2 + q % (localCpus.length / 2) < localCpus.length := by
    have := Nat.mod_lt q hhalf
    omega
  refine ⟨localCpus.get ⟨_, hlt⟩, ?_, ?_⟩
  · simp only [recvCpu, if_pos h, List.getElem?_eq_getElem hlt, Option.map_some, List.get_eq_getElem]
  · rw [List.getElem?_drop, List.getElem?_eq_getElem hlt, List.get_eq_getElem]

/-- Receivers share a CPU exactly if their queues are a multiple of the half apart. -/
theorem recvCpu_inj (hnodup : localCpus.Nodup) (q q' : ℕ) :
    recvCpu localCpus q = recvCpu localCpus q' ↔
      q % (localCpus.length / 2) = q' % (localCpus.length / 2) := by
  obtain ⟨c, hc, hget⟩ := recvCpu_eq h q
  obtain ⟨c', hc', hget'⟩ := recvCpu_eq h q'
  rw [hc, hc', Option.some.injEq, ← hget, ← hget']
  exact List.getElem?_inj (List.getElem?_eq_some_iff.mp hget).1 hnodup.drop

end Receivers

/-- Both readers of a CPU list agree on every text, and read a list of ranges that the kernel has printed
as the CPUs of the ranges.  If those ascend and are two or more, every receiver has a CPU of the upper half
of the list, and two receivers share one exactly if their queues are a multiple of the half apart. -/
theorem cpulist_read_back (rs : List Range) :
    (∀ text, logicalCpusForNode text = nicLocalLogicalCpus text) ∧
      nicLocalLogicalCpus (some (render rs)) = rs.flatMap Range.cpus ∧
      ((rs.Pairwise fun r s => r.last < s.first) → 2 ≤ (rs.flatMap Range.cpus).length →
        ∀ q q',
          (∃ c ∈ (rs.flatMap Range.cpus).drop ((rs.flatMap Range.cpus).length / 2),
            recvCpu (nicLocalLogicalCpus (some (render rs))) q = some (some c)) ∧
          (recvCpu (nicLocalLogicalCpus (some (render rs))) q =
              recvCpu (nicLocalLogicalCpus (some (render rs))) q' ↔
            q % ((rs.flatMap Range.cpus).length / 2) = q' % ((rs.flatMap Range.cpus).length / 2))) := by
  refine ⟨logicalCpusForNode_eq, nicLocalLogicalCpus_render rs, fun hasc htwo q q' => ?_⟩
  rw [nicLocalLogicalCpus_render]
  obtain ⟨c, hc, hget⟩ := recvCpu_eq htwo q
  have hnodup := (pairwise_lt_flatMap_cpus hasc).imp Nat.ne_of_lt
  exact ⟨⟨c, List.mem_of_getElem? hget, hc⟩, recvCpu_inj htwo hnodup q q'⟩

theorem five_lt_two_pow : 5 < 2 ^ 64 := by decide

/-- `0-1,4-5`: two cores and their siblings. -/
def twoCores : List Range :=
  [⟨0, 1, Nat.le_succ 0, Nat.one_lt_two_pow_iff.mpr (Nat.succ_ne_zero 63)⟩,
    ⟨4, 5, Nat.le_succ 4, five_lt_two_pow⟩]

theorem cpulist_read_back_twoCores :
    nicLocalLogicalCpus (some "0-1,4-5\n".toList) = [0, 1, 4, 5] ∧
      ¬ recvCpu (nicLocalLogicalCpus (some (render twoCores))) 0 =
        recvCpu (nicLocalLogicalCpus (some (render twoCores))) 1 :=
  ⟨(cpulist_read_back twoCores).2.1,
    mt ((cpulist_read_back twoCores).2.2 (by decide) (by decide) 0 1).2.mp (by decide)⟩

end Dnsmark.CpuList
