import Retrace.Message.Reader
import Retrace.Proofs.Wire.Packets

/-!
# Traces of packets are read back

Reading a trace packet by packet gives the packets that were transmitted, whatever idle slices are
between them, and then nothing any more.
-/

namespace Retrace

open Wire

/-- The results of calls in a row. -/
def calls {σ α : Type} (f : σ → α × σ) : Nat → σ → List α
  | 0, _ => []
  | n + 1, s => (f s).1 :: calls f n (f s).2

theorem calls_of_eq {σ α : Type} {f : σ → α × σ} {s s' : σ} {a : α} (h : f s = (a, s')) (n : Nat) :
    calls f (n + 1) s = a :: calls f n s' := by
  rw [calls, h]

/-- The slices of packets, each behind a number of idle ones. -/
def transmit (coreBits : Nat) (ps : List (Nat × Packet)) : List UInt8 :=
  ps.flatMap fun (idles, p) => .replicate idles Slice.idle ++ p.encode coreBits

namespace Reader

variable {r : Reader} {p : Packet} {idles : Nat} {rest : List UInt8}

theorem nextPacket_encode (hp : p.Complete) (h : r.position.rest =
      .replicate idles Slice.idle ++ (p.encode r.options.coreBits ++ rest)) :
    ∃ offset, r.nextPacket =
      (some (.ok (p.reduced r.options.coreBits)), { r with position := ⟨offset, rest⟩ }) := by
  obtain ⟨offset, hn⟩ := Position.next_encode hp r.options.coreBits r.position.offset idles rest
  rw [← h] at hn
  exact ⟨offset, by simp only [nextPacket, hn]⟩

theorem nextPacket_idle (h : r.position.rest = .replicate idles Slice.idle) :
    ∃ offset, r.nextPacket = (none, { r with position := ⟨offset, []⟩ }) := by
  obtain ⟨offset, hn⟩ := Position.next_idle r.options.coreBits r.position.offset idles
  rw [← h] at hn
  exact ⟨offset, by simp only [nextPacket, hn]⟩

theorem calls_nextPacket_idle (extra : Nat) (h : r.position.rest = .replicate idles Slice.idle) :
    calls nextPacket extra r = .replicate extra none := by
  induction extra generalizing r idles with
  | zero => rfl
  | succ n ih =>
      obtain ⟨offset, hn⟩ := nextPacket_idle h
      rw [calls_of_eq hn, ih (show _ = List.replicate 0 Slice.idle from rfl)]
      rfl

theorem calls_nextPacket_transmit (ps : List (Nat × Packet)) (extra : Nat)
    (h : ∀ q ∈ ps, q.2.Complete)
    (hr : r.position.rest = transmit r.options.coreBits ps ++ .replicate idles Slice.idle) :
    calls nextPacket (ps.length + extra) r =
      ps.map (fun q => some (.ok (q.2.reduced r.options.coreBits))) ++ .replicate extra none := by
  induction ps generalizing r with
  | nil =>
      rw [List.length_nil, Nat.zero_add, calls_nextPacket_idle extra hr]
      rfl
  | cons q ps ih =>
      have hrest : r.position.rest = .replicate q.1 Slice.idle ++ (q.2.encode r.options.coreBits ++
          (transmit r.options.coreBits ps ++ .replicate idles Slice.idle)) := by
        simpa [transmit] using hr
      obtain ⟨offset, hn⟩ := nextPacket_encode (h q List.mem_cons_self) hrest
      rw [List.length_cons, Nat.succ_add, calls_of_eq hn,
        ih (fun q hq => h q (List.mem_cons_of_mem _ hq)) rfl]
      rfl

/-- Of any packets that are complete, with any idle slices before, between and after them, a reader
gives exactly these, as they fit into their slices. -/
theorem transmitted_packets_are_read (options : ReaderOptions) (ps : List (Nat × Packet))
    (idles extra : Nat) (h : ∀ q ∈ ps, q.2.Complete) :
    calls nextPacket (ps.length + extra)
        (start options (transmit options.coreBits ps ++ .replicate idles Slice.idle)) =
      ps.map (fun q => some (.ok (q.2.reduced options.coreBits))) ++ .replicate extra none :=
  calls_nextPacket_transmit ps extra h rfl

/-- A fixed field loses its upper bits, a variable one of 64 bits does not, and there may be fields
after the layout. -/
theorem error_and_branch_are_read :
    let ps : List (Nat × Packet) := [(2, ⟨.error, 5, [0x17, 0xffffffffffffffff, 0]⟩),
      (0, ⟨.directBranch, 2, [0, 7]⟩)]
    calls nextPacket 4 (start ⟨2, 40⟩ (transmit 2 ps ++ [Slice.idle])) =
      [some (.ok ⟨.error, 1, [7, 0xffffffffffffffff, 0]⟩),
        some (.ok ⟨.directBranch, 2, [0, 7]⟩), none, none] := by
  intro ps
  have hcomplete : ∀ q ∈ ps, q.2.Complete := by
    intro q hq
    simp only [ps, List.mem_cons, List.not_mem_nil, or_false] at hq
    rcases hq with rfl | rfl
    · exact ⟨_, rfl, by decide⟩
    · exact ⟨_, rfl, by decide⟩
  exact transmitted_packets_are_read ⟨2, 40⟩ ps 1 2 hcomplete

end Reader

end Retrace
