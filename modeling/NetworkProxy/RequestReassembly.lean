import NetworkProxy.RequestFraming

/-!
# Reassembly of a request

A client sends a header block and the body that the block declares.

`recv_reassembles`: however the socket splits the two, `recv_http_request` returns exactly
these bytes, and the parser takes exactly the body for the body.
-/

namespace NetworkProxy
namespace Http

open Py

/-- A header block: the terminator stands at its end and nowhere before. -/
structure HeaderBlock where
  head : Bytes
  terminated : breakOn headerTerminator (head ++ headerTerminator) = some (head, [])
  length_le : (head ++ headerTerminator).length ≤ maxHeaderSize

namespace HeaderBlock

variable (H : HeaderBlock)

def bytes : Bytes := H.head ++ headerTerminator

/-- The length `_extract_content_length` reads from the block; `0` when it reads none. -/
def declared (rt : PyRuntime) : ℤ := (extractContentLength rt (decodeIgnore H.bytes)).getD 0

/-- Whatever follows the block, the first terminator is the one of the block. -/
theorem breakOn_append (B : Bytes) :
    breakOn headerTerminator (H.bytes ++ B) = some (H.head, B) :=
  Py.breakOn_append B H.terminated

variable {H} {B data rest : Bytes}

/-- Data with a terminator hold the whole block. -/
theorem eq_of_breakOn {parts : Bytes × Bytes} (hsent : data ++ rest = H.bytes ++ B)
    (hbreak : breakOn headerTerminator data = some parts) :
    parts.1 = H.head ∧ parts.2 ++ rest = B := by
  have hwhole : breakOn headerTerminator (data ++ rest) = some (parts.1, parts.2 ++ rest) :=
    Py.breakOn_append rest hbreak
  rw [hsent, H.breakOn_append B, Option.some.injEq, Prod.mk.injEq] at hwhole
  exact ⟨hwhole.1.symm, hwhole.2.symm⟩

/-- Data without a terminator are shorter than the block. -/
theorem length_lt_of_breakOn (hsent : data ++ rest = H.bytes ++ B)
    (hbreak : breakOn headerTerminator data = none) : data.length < H.bytes.length := by
  by_contra hlong
  have hprefix : H.bytes <+: data :=
    List.prefix_of_prefix_length_le (hsent ▸ List.prefix_append H.bytes B)
      (List.prefix_append data rest) (not_lt.mp hlong)
  obtain ⟨more, rfl⟩ := hprefix
  rw [H.breakOn_append more] at hbreak
  cases hbreak

end HeaderBlock

section Reassembly

variable {rt : PyRuntime} {H : HeaderBlock} {B : Bytes}

/-- Phase 1 stops with the block, a part of the body behind it, and the chunks that hold
the rest of the body. -/
theorem recvHeaders_of_sent (later : List RecvEvent) {chunks : List Chunk} :
    ∀ {data : Bytes}, data ++ chunks.flatMap Chunk.bytes = H.bytes ++ B →
      ∃ (early : Bytes) (chunks' : List Chunk),
        recvHeaders (chunks.map RecvEvent.data ++ later) data =
          some (H.bytes ++ early, chunks'.map RecvEvent.data ++ later) ∧
        early ++ chunks'.flatMap Chunk.bytes = B := by
  induction chunks with
  | nil =>
      intro data hsent
      rw [List.flatMap_nil, List.append_nil] at hsent
      refine ⟨B, [], ?_, by simp⟩
      have hbreak : (breakOn headerTerminator (H.bytes ++ B)).isSome = true := by
        rw [H.breakOn_append B]
        rfl
      rw [hsent]
      cases later with
      | nil => exact if_pos hbreak
      | cons event later => exact if_pos hbreak
  | cons chunk chunks ih =>
      intro data hsent
      rw [List.map_cons, List.cons_append, recvHeaders]
      cases hbreak : breakOn headerTerminator data with
      | some parts =>
          obtain ⟨hhead, hbody⟩ := HeaderBlock.eq_of_breakOn hsent hbreak
          refine ⟨parts.2, chunk :: chunks, ?_, hbody⟩
          have hdata : data = H.bytes ++ parts.2 := by
            rw [HeaderBlock.bytes, ← hhead]
            exact breakOn_eq_some hbreak
          rw [if_pos Option.isSome_some, ← hdata]
          rfl
      | none =>
          have hshort : ¬ maxHeaderSize < data.length := by
            have hlt := HeaderBlock.length_lt_of_breakOn hsent hbreak
            have hle : H.bytes.length ≤ maxHeaderSize := H.length_le
            omega
          rw [if_neg (by simp), if_neg hshort]
          refine ih ?_
          rw [List.append_assoc, ← List.flatMap_cons]
          exact hsent

theorem streamOf_append (chunks : List Chunk) (later : List RecvEvent) :
    streamOf (chunks.map RecvEvent.data ++ later) =
      chunks.flatMap Chunk.bytes ++ streamOf later := by
  induction chunks with
  | nil => rfl
  | cons chunk chunks ih =>
      rw [List.map_cons, List.cons_append, streamOf, ih, List.flatMap_cons, List.append_assoc]

/-- The received bytes. -/
theorem recvHttpRequest_of_sent (later : List RecvEvent) (hB : (B.length : ℤ) = H.declared rt)
    {chunks : List Chunk} (hsent : chunks.flatMap Chunk.bytes = H.bytes ++ B) :
    recvHttpRequest rt (chunks.map RecvEvent.data ++ later) = H.bytes ++ B := by
  have hstart : [] ++ chunks.flatMap Chunk.bytes = H.bytes ++ B := hsent
  obtain ⟨early, chunks', hrecv, hbody⟩ := recvHeaders_of_sent later hstart
  rw [HeaderBlock.declared] at hB
  rw [recvHttpRequest, hrecv]
  dsimp only
  rw [H.breakOn_append early]
  dsimp only
  rw [← HeaderBlock.bytes]
  have hdone : B.length = 0 → H.bytes ++ early = H.bytes ++ B := by
    intro hzero
    rw [List.length_eq_zero_iff] at hzero
    rw [hzero] at hbody ⊢
    rw [(List.append_eq_nil_iff.mp hbody).1]
  split
  · rename_i contentLength hcl
    rw [hcl, Option.getD_some] at hB
    split
    · have hmissing : (contentLength - early.length).toNat =
          (chunks'.flatMap Chunk.bytes).length := by
        rw [← hB, ← hbody, List.length_append]
        omega
      rw [recvBody_eq, streamOf_append, hmissing, List.take_left, List.append_assoc, hbody]
    · exact hdone (by omega)
  · rename_i hcl
    rw [hcl, Option.getD_none] at hB
    exact hdone (by omega)

/--
**Reassembly.**  A header block of at most `maxHeaderSize` bytes and the body it declares are
received exactly, in whatever chunks the socket delivers them (none is longer than what is still
missing) and whatever it would deliver after them; the parser takes exactly the body for the body.
-/
theorem recv_reassembles (rt : PyRuntime) (H : HeaderBlock) (B : Bytes)
    (hB : (B.length : ℤ) = H.declared rt) (chunks : List Chunk)
    (hsent : chunks.flatMap Chunk.bytes = H.bytes ++ B) (later : List RecvEvent) :
    recvHttpRequest rt (chunks.map RecvEvent.data ++ later) = H.bytes ++ B ∧
      ∀ requestId p,
        parseHttpRequest rt requestId
            (recvHttpRequest rt (chunks.map RecvEvent.data ++ later)) = .ok (some p) →
          p.body = B := by
  have hrecv := recvHttpRequest_of_sent later hB hsent
  refine ⟨hrecv, fun requestId p hparse => ?_⟩
  rw [hrecv] at hparse
  obtain ⟨head, _, _, _, _, hbreak, -⟩ := parseHttpRequest_eq_some hparse
  rw [H.breakOn_append B, Option.some.injEq, Prod.mk.injEq] at hbreak
  exact hbreak.2.symm

/-- A block that declares two bytes. -/
def twoByteBlock : HeaderBlock where
  head := ascii "POST http://a/ HTTP/1.1\r\nContent-Length: 2"
  terminated := by decide
  length_le := by decide

/-- The terminator is split between two chunks, and so is the body. -/
theorem recv_reassembles_twoByteBlock :
    recvHttpRequest asciiRuntime
        [textChunk "POST http://a/ HTTP/1.1\r\nContent-Length: 2\r\n\r" (by decide) (by decide),
          textChunk "\nh" (by decide) (by decide), textChunk "i" (by decide) (by decide), .eof] =
      twoByteBlock.bytes ++ ascii "hi" :=
  (recv_reassembles asciiRuntime twoByteBlock (ascii "hi") rfl
    [⟨ascii "POST http://a/ HTTP/1.1\r\nContent-Length: 2\r\n\r", by decide, by decide⟩,
      ⟨ascii "\nh", by decide, by decide⟩, ⟨ascii "i", by decide, by decide⟩] rfl [.eof]).1

end Reassembly

end Http
end NetworkProxy
