import StuntDouble.Utf8

/-!
Reading newline-terminated lines from a byte stream that arrives in chunks. A
reader is the chunks still to come, none of them empty, and how the stream goes
on after the last one. What a read returns depends on the bytes alone: a line is
what stands before the next newline, and only the last one may lack it.
-/
namespace StuntDouble.LineReader

def newline : UInt8 := 10

/-- What one call of `fill_buf` delivers before the end of the stream. -/
abbrev Chunk := {bytes : Bytes // bytes ≠ []}

/-- How a stream goes on after its last byte; `silent` keeps the reader waiting. -/
inductive Tail
  | eof
  | failure
  | silent
deriving DecidableEq, Repr

structure Reader where
  chunks : List Chunk
  tail : Tail

def Reader.bytes (reader : Reader) : Bytes := (reader.chunks.map Subtype.val).flatten

inductive LineRead
  | line (text : String)
  | eof
  | failure
  | silent
deriving DecidableEq, Repr

/-- The bytes up to and with the first newline, if there is one, and the bytes after it. -/
def splitNewline : Bytes → Option (Bytes × Bytes)
  | [] => none
  | b :: rest =>
    if b = newline then some ([b], rest)
    else (splitNewline rest).map (fun halves => (b :: halves.1, halves.2))

def appendProtocolChunk (limit : ℕ) (line chunk : Bytes) : Option Bytes :=
  if limit < line.length + chunk.length then none else some (line ++ chunk)

/-- What a read returns once its line is complete. -/
def decodeLine (line : Bytes) : LineRead :=
  match line with
  | [] => .eof
  | _ :: _ =>
    match Utf8.decode line with
    | none => .failure
    | some text => .line text

/-- The chunks that are left when some bytes of the first one are consumed. -/
def consume (after : Bytes) (rest : List Chunk) : List Chunk :=
  if h : after = [] then rest else ⟨after, h⟩ :: rest

def readLoop (limit : ℕ) (tail : Tail) (line : Bytes) : List Chunk → LineRead × List Chunk
  | [] =>
    match tail with
    | .eof => (decodeLine line, [])
    | .failure => (.failure, [])
    | .silent => (.silent, [])
  | chunk :: rest =>
    match splitNewline chunk.val with
    | some (take, after) =>
      match appendProtocolChunk limit line take with
      | none => (.failure, chunk :: rest)
      | some line => (decodeLine line, consume after rest)
    | none =>
      match appendProtocolChunk limit line chunk.val with
      | none => (.failure, chunk :: rest)
      | some line => readLoop limit tail line rest

def readLimitedLine (limit : ℕ) (reader : Reader) : LineRead × Reader :=
  ((readLoop limit reader.tail [] reader.chunks).1,
    ⟨(readLoop limit reader.tail [] reader.chunks).2, reader.tail⟩)

section Lines

/-- A complete line within the limit. -/
def IsLine (limit : ℕ) (line : Bytes) : Prop :=
  line.length ≤ limit ∧ ∃ body, line = body ++ [newline] ∧ newline ∉ body

/-- What may stand after the last newline of a stream. -/
def IsUnterminated (limit : ℕ) (line : Bytes) : Prop :=
  line.length ≤ limit ∧ line ≠ [] ∧ newline ∉ line

theorem splitNewline_some (bytes take after : Bytes)
    (h : splitNewline bytes = some (take, after)) :
    bytes = take ++ after ∧ ∃ body, take = body ++ [newline] ∧ newline ∉ body := by
  induction bytes generalizing take with
  | nil => contradiction
  | cons b rest ih =>
    unfold splitNewline at h
    by_cases hb : b = newline
    · rw [if_pos hb] at h
      have hpair := Option.some.inj h
      have htake : [b] = take := congrArg Prod.fst hpair
      have hafter : rest = after := congrArg Prod.snd hpair
      subst htake hafter hb
      exact ⟨rfl, [], rfl, by simp⟩
    · rw [if_neg hb] at h
      obtain ⟨halves, hhalves, hpair⟩ := Option.map_eq_some_iff.mp h
      have htake : b :: halves.1 = take := congrArg Prod.fst hpair
      have hafter : halves.2 = after := congrArg Prod.snd hpair
      subst htake hafter
      obtain ⟨hrest, body, hbody, hnot⟩ := ih halves.1 hhalves
      refine ⟨by rw [List.cons_append, ← hrest], b :: body, by rw [hbody]; rfl, ?_⟩
      simp [hnot, Ne.symm hb]

theorem splitNewline_none (bytes : Bytes) (h : splitNewline bytes = none) :
    newline ∉ bytes := by
  induction bytes with
  | nil => simp
  | cons b rest ih =>
    unfold splitNewline at h
    by_cases hb : b = newline
    · rw [if_pos hb] at h
      contradiction
    · rw [if_neg hb] at h
      have hrest := ih (Option.map_eq_none_iff.mp h)
      simp [hrest, Ne.symm hb]

theorem splitNewline_append (body rest : Bytes) (h : newline ∉ body) :
    splitNewline (body ++ newline :: rest) = some (body ++ [newline], rest) := by
  induction body with
  | nil => simp [splitNewline]
  | cons b body ih =>
    rw [List.mem_cons, not_or] at h
    rw [List.cons_append, splitNewline, if_neg (Ne.symm h.1), ih h.2]
    rfl

/-- Two lines that two equal streams begin with are equal, and so is what follows. -/
theorem IsLine.unique {limit : ℕ} {line line' rest rest' : Bytes} (h : IsLine limit line)
    (h' : IsLine limit line') (heq : line ++ rest = line' ++ rest') :
    line = line' ∧ rest = rest' := by
  obtain ⟨-, body, rfl, hbody⟩ := h
  obtain ⟨-, body', rfl, hbody'⟩ := h'
  have hsplit := splitNewline_append body rest hbody
  rw [← List.singleton_append, ← List.append_assoc, heq, List.append_assoc, List.singleton_append,
    splitNewline_append body' rest' hbody'] at hsplit
  have hpair := Option.some.inj hsplit
  exact ⟨(congrArg Prod.fst hpair).symm, (congrArg Prod.snd hpair).symm⟩

theorem IsLine.newline_mem {limit : ℕ} {line : Bytes} (h : IsLine limit line) :
    newline ∈ line := by
  obtain ⟨-, body, rfl, -⟩ := h
  simp

theorem consume_bytes (after : Bytes) (rest : List Chunk) :
    ((consume after rest).map Subtype.val).flatten = after ++ (rest.map Subtype.val).flatten := by
  unfold consume
  by_cases h : after = []
  · simp [h]
  · simp [h]

theorem appendProtocolChunk_some (limit : ℕ) (line chunk joined : Bytes)
    (h : appendProtocolChunk limit line chunk = some joined) :
    joined = line ++ chunk ∧ joined.length ≤ limit := by
  unfold appendProtocolChunk at h
  by_cases hlong : limit < line.length + chunk.length
  · rw [if_pos hlong] at h
    contradiction
  · rw [if_neg hlong] at h
    obtain rfl := Option.some.inj h
    exact ⟨rfl, by rw [List.length_append]; omega⟩

theorem decodeLine_line (line : Bytes) (text : String) (h : decodeLine line = .line text) :
    line ≠ [] ∧ Utf8.decode line = some text := by
  cases line with
  | nil => contradiction
  | cons b rest =>
    unfold decodeLine at h
    cases hutf8 : Utf8.decode (b :: rest) with
    | none =>
      simp only [hutf8] at h
      contradiction
    | some decoded =>
      simp only [hutf8] at h
      obtain rfl := LineRead.line.inj h
      exact ⟨by simp, rfl⟩

theorem decodeLine_eof (line : Bytes) (h : decodeLine line = .eof) : line = [] := by
  cases line with
  | nil => rfl
  | cons b rest =>
    unfold decodeLine at h
    cases hutf8 : Utf8.decode (b :: rest) <;> simp only [hutf8] at h <;> contradiction

/-- A read that returns a line has taken it off the front of the stream. -/
theorem readLoop_line (limit : ℕ) (tail : Tail) (line : Bytes) (chunks : List Chunk)
    (text : String) (hline : newline ∉ line) (hlength : line.length ≤ limit)
    (h : (readLoop limit tail line chunks).1 = .line text) :
    ∃ taken, line ++ (chunks.map Subtype.val).flatten =
        taken ++ ((readLoop limit tail line chunks).2.map Subtype.val).flatten ∧
      Utf8.decode taken = some text ∧
        (IsLine limit taken ∨ (IsUnterminated limit taken ∧ tail = .eof ∧
          (readLoop limit tail line chunks).2 = [])) := by
  induction chunks generalizing line with
  | nil =>
    cases tail with
    | eof =>
      obtain ⟨hne, htext⟩ := decodeLine_line line text h
      exact ⟨line, by simp [readLoop], htext, Or.inr ⟨⟨hlength, hne, hline⟩, rfl, rfl⟩⟩
    | failure => contradiction
    | silent => contradiction
  | cons chunk rest ih =>
    unfold readLoop at h ⊢
    cases hsplit : splitNewline chunk.val with
    | some halves =>
      obtain ⟨take, after⟩ := halves
      obtain ⟨hchunk, body, htake, hbody⟩ := splitNewline_some chunk.val take after hsplit
      simp only [hsplit] at h ⊢
      cases happend : appendProtocolChunk limit line take with
      | none =>
        simp only [happend] at h
        contradiction
      | some joined =>
        simp only [happend] at h ⊢
        obtain ⟨hjoined, hjoinedLength⟩ := appendProtocolChunk_some limit line take joined happend
        obtain ⟨-, htext⟩ := decodeLine_line joined text h
        refine ⟨joined, ?_, htext, Or.inl ⟨hjoinedLength, line ++ body, ?_, ?_⟩⟩
        · rw [consume_bytes, hjoined, List.map_cons, List.flatten_cons, hchunk]
          simp only [List.append_assoc]
        · rw [hjoined, htake, List.append_assoc]
        · simp [hline, hbody]
    | none =>
      simp only [hsplit] at h ⊢
      cases happend : appendProtocolChunk limit line chunk.val with
      | none =>
        simp only [happend] at h
        contradiction
      | some joined =>
        simp only [happend] at h ⊢
        obtain ⟨hjoined, hjoinedLength⟩ :=
          appendProtocolChunk_some limit line chunk.val joined happend
        have hnot : newline ∉ joined := by
          rw [hjoined, List.mem_append, not_or]
          exact ⟨hline, splitNewline_none chunk.val hsplit⟩
        obtain ⟨taken, htaken, hrest⟩ := ih joined hnot hjoinedLength h
        refine ⟨taken, ?_, hrest⟩
        rw [← htaken, hjoined, List.map_cons, List.flatten_cons, List.append_assoc]

/-- A read that returns the end of the stream has found nothing before it. -/
theorem readLoop_eof (limit : ℕ) (tail : Tail) (line : Bytes) (chunks : List Chunk)
    (h : (readLoop limit tail line chunks).1 = .eof) :
    line = [] ∧ chunks = [] ∧ tail = .eof := by
  induction chunks generalizing line with
  | nil =>
    cases tail with
    | eof => exact ⟨decodeLine_eof line h, rfl, rfl⟩
    | failure => contradiction
    | silent => contradiction
  | cons chunk rest ih =>
    exfalso
    unfold readLoop at h
    cases hsplit : splitNewline chunk.val with
    | some halves =>
      obtain ⟨take, after⟩ := halves
      obtain ⟨-, body, htake, -⟩ := splitNewline_some chunk.val take after hsplit
      simp only [hsplit] at h
      cases happend : appendProtocolChunk limit line take with
      | none =>
        simp only [happend] at h
        contradiction
      | some joined =>
        simp only [happend] at h
        have hempty := decodeLine_eof joined h
        rw [(appendProtocolChunk_some limit line take joined happend).1, htake] at hempty
        simp at hempty
    | none =>
      simp only [hsplit] at h
      cases happend : appendProtocolChunk limit line chunk.val with
      | none =>
        simp only [happend] at h
        contradiction
      | some joined =>
        simp only [happend] at h
        have hempty := (ih joined h).1
        rw [(appendProtocolChunk_some limit line chunk.val joined happend).1] at hempty
        exact chunk.property (List.append_eq_nil_iff.mp hempty).2

variable {limit : ℕ} {reader : Reader}

theorem readLimitedLine_line (text : String) (h : (readLimitedLine limit reader).1 = .line text) :
    ∃ taken, reader.bytes = taken ++ (readLimitedLine limit reader).2.bytes ∧
      Utf8.decode taken = some text ∧
        (IsLine limit taken ∨ (IsUnterminated limit taken ∧ reader.tail = .eof ∧
          (readLimitedLine limit reader).2.bytes = [])) := by
  obtain ⟨taken, htaken, htext, hshape⟩ := readLoop_line limit reader.tail [] reader.chunks text
    (by simp) (Nat.zero_le limit) h
  refine ⟨taken, htaken, htext, ?_⟩
  rcases hshape with hline | ⟨hlast, htail, hchunks⟩
  · exact Or.inl hline
  · exact Or.inr ⟨hlast, htail, by simp [Reader.bytes, readLimitedLine, hchunks]⟩

theorem readLimitedLine_eof (h : (readLimitedLine limit reader).1 = .eof) :
    reader.bytes = [] ∧ reader.tail = .eof := by
  obtain ⟨-, hchunks, htail⟩ := readLoop_eof limit reader.tail [] reader.chunks h
  exact ⟨by simp [Reader.bytes, hchunks], htail⟩

@[simp] theorem readLimitedLine_tail (limit : ℕ) (reader : Reader) :
    (readLimitedLine limit reader).2.tail = reader.tail := rfl

/-- Every line that is read makes the rest of the stream shorter. -/
theorem readLimitedLine_length_lt (text : String)
    (h : (readLimitedLine limit reader).1 = .line text) :
    (readLimitedLine limit reader).2.bytes.length < reader.bytes.length := by
  obtain ⟨taken, htaken, -, hshape⟩ := readLimitedLine_line text h
  have hpos : 0 < taken.length := by
    rcases hshape with ⟨-, body, hbody, -⟩ | ⟨⟨-, hne, -⟩, -⟩
    · rw [hbody, List.length_append]
      simp
    · exact List.length_pos_iff.mpr hne
  rw [htaken, List.length_append]
  omega

end Lines

end StuntDouble.LineReader
