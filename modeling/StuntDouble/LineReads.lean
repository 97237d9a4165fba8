import StuntDouble.LineReader

/-!
Reading a whole stream line by line. The asynchronous reader may have to wait for a chunk, and
keeps the line that it has so far. What the reads of either version return are the lines of
the stream, up to the first one that is too long or no text.
-/
namespace StuntDouble.LineReader

/-- What polling `fill_buf` finds. -/
inductive Poll
  | pending
  | ready (chunk : Chunk)

structure AsyncReader where
  polls : List Poll
  tail : Tail

def pollBytes : List Poll → Bytes
  | [] => []
  | .pending :: polls => pollBytes polls
  | .ready chunk :: polls => chunk.val ++ pollBytes polls

def AsyncReader.bytes (reader : AsyncReader) : Bytes := pollBytes reader.polls

section Loop

/-- What is left when some bytes of the chunk that was found are consumed. -/
def consumePoll (after : Bytes) (polls : List Poll) : List Poll :=
  if h : after = [] then polls else .ready ⟨after, h⟩ :: polls

/-- What a loop ends with, and every value that its line has had. -/
structure Loop where
  read : LineRead
  polls : List Poll
  held : List Bytes

def pollLoop (limit : ℕ) (tail : Tail) (line : Bytes) : List Poll → Loop
  | [] =>
    match tail with
    | .eof => ⟨decodeLine line, [], [line]⟩
    | .failure => ⟨.failure, [], [line]⟩
    | .silent => ⟨.silent, [], [line]⟩
  | .pending :: polls => pollLoop limit tail line polls
  | .ready chunk :: polls =>
    match splitNewline chunk.val with
    | some (take, after) =>
      match appendProtocolChunk limit line take with
      | none => ⟨.failure, .ready chunk :: polls, [line]⟩
      | some joined => ⟨decodeLine joined, consumePoll after polls, [line, joined]⟩
    | none =>
      match appendProtocolChunk limit line chunk.val with
      | none => ⟨.failure, .ready chunk :: polls, [line]⟩
      | some joined =>
        let loop := pollLoop limit tail joined polls
        ⟨loop.read, loop.polls, line :: loop.held⟩

def readLimitedLineAsync (limit : ℕ) (reader : AsyncReader) : LineRead × AsyncReader :=
  ((pollLoop limit reader.tail [] reader.polls).read,
    ⟨(pollLoop limit reader.tail [] reader.polls).polls, reader.tail⟩)

def AsyncReader.held (limit : ℕ) (reader : AsyncReader) : List Bytes :=
  (pollLoop limit reader.tail [] reader.polls).held

/-- A reader that never has to wait. -/
def Reader.toAsync (reader : Reader) : AsyncReader := ⟨reader.chunks.map .ready, reader.tail⟩

end Loop

section Loops

@[simp] theorem pollBytes_consumePoll (after : Bytes) (polls : List Poll) :
    pollBytes (consumePoll after polls) = after ++ pollBytes polls := by
  unfold consumePoll
  split
  · rename_i h
    rw [h, List.nil_append]
  · rfl

theorem pollBytes_ready (chunks : List Chunk) :
    pollBytes (chunks.map .ready) = (chunks.map Subtype.val).flatten := by
  induction chunks with
  | nil => rfl
  | cons chunk chunks ih =>
    show chunk.val ++ pollBytes (chunks.map .ready) = _
    rw [ih, List.map_cons, List.flatten_cons]

@[simp] theorem Reader.toAsync_bytes (reader : Reader) : reader.toAsync.bytes = reader.bytes :=
  pollBytes_ready reader.chunks

theorem consumePoll_ready (after : Bytes) (chunks : List Chunk) :
    consumePoll after (chunks.map .ready) = (consume after chunks).map .ready := by
  unfold consumePoll consume
  split
  · rfl
  · rfl

/-- The two loops are the same where nothing has to be waited for. -/
theorem readLoop_eq (limit : ℕ) (tail : Tail) (line : Bytes) (chunks : List Chunk) :
    (readLoop limit tail line chunks).1 = (pollLoop limit tail line (chunks.map .ready)).read ∧
      (readLoop limit tail line chunks).2.map .ready =
        (pollLoop limit tail line (chunks.map .ready)).polls := by
  induction chunks generalizing line with
  | nil => cases tail <;> exact ⟨rfl, rfl⟩
  | cons chunk chunks ih =>
    rw [List.map_cons, readLoop, pollLoop]
    cases splitNewline chunk.val with
    | some halves =>
      obtain ⟨take, after⟩ := halves
      dsimp only
      cases appendProtocolChunk limit line take with
      | none => exact ⟨rfl, rfl⟩
      | some joined => exact ⟨rfl, (consumePoll_ready after chunks).symm⟩
    | none =>
      dsimp only
      cases appendProtocolChunk limit line chunk.val with
      | none => exact ⟨rfl, rfl⟩
      | some joined => exact ih joined

theorem readLimitedLine_toAsync (limit : ℕ) (reader : Reader) :
    (readLimitedLine limit reader).1 = (readLimitedLineAsync limit reader.toAsync).1 ∧
      (readLimitedLine limit reader).2.toAsync = (readLimitedLineAsync limit reader.toAsync).2 := by
  obtain ⟨hread, hrest⟩ := readLoop_eq limit reader.tail [] reader.chunks
  refine ⟨hread, ?_⟩
  unfold readLimitedLine Reader.toAsync readLimitedLineAsync
  simp only [hrest]

/-- The line never outgrows the limit. -/
theorem pollLoop_held {limit : ℕ} {tail : Tail} {line : Bytes} (h : line.length ≤ limit)
    (polls : List Poll) : ∀ held ∈ (pollLoop limit tail line polls).held, held.length ≤ limit := by
  induction polls generalizing line with
  | nil => cases tail <;> simpa [pollLoop] using h
  | cons poll polls ih =>
    cases poll with
    | pending => exact ih h
    | ready chunk =>
      rw [pollLoop]
      split
      · split
        · simpa using h
        · rename_i joined happend
          have hjoined := (appendProtocolChunk_some _ _ _ _ happend).2
          simp only [List.mem_cons, List.not_mem_nil, or_false, forall_eq_or_imp, forall_eq]
          exact ⟨h, hjoined⟩
      · split
        · simpa using h
        · rename_i joined happend
          have hjoined := (appendProtocolChunk_some _ _ _ _ happend).2
          intro held hheld
          rcases List.mem_cons.mp hheld with rfl | hheld
          · exact h
          · exact ih hjoined held hheld

end Loops

section Lines

/-- A line with its newline. -/
def IsTerminated (line : Bytes) : Prop := ∃ body, line = body ++ [newline] ∧ newline ∉ body

/-- Every stream is made of terminated lines and of what stands after the last newline. -/
theorem exists_lines (bytes : Bytes) : ∃ (lines : List Bytes) (rest : Bytes),
    bytes = lines.flatten ++ rest ∧ (∀ line ∈ lines, IsTerminated line) ∧ newline ∉ rest := by
  induction hn : bytes.length using Nat.strongRecOn generalizing bytes with
  | _ n ih =>
    cases hsplit : splitNewline bytes with
    | none => exact ⟨[], bytes, rfl, by simp, splitNewline_none bytes hsplit⟩
    | some halves =>
      obtain ⟨take, after⟩ := halves
      obtain ⟨hbytes, hbody⟩ := splitNewline_some bytes take after hsplit
      have hlength : after.length < n := by
        obtain ⟨body, htake, -⟩ := hbody
        rw [← hn, hbytes, htake]
        simp only [List.length_append, List.length_singleton]
        omega
      obtain ⟨lines, rest, hafter, hlines, hrest⟩ := ih after.length hlength after rfl
      refine ⟨take :: lines, rest, ?_, ?_, hrest⟩
      · rw [hbytes, hafter, List.flatten_cons, List.append_assoc]
      · intro line hline
        rcases List.mem_cons.mp hline with rfl | hline
        · exact hbody
        · exact hlines line hline

/-- The text of a line, if it is within the limit and well-formed. -/
def acceptedText (limit : ℕ) (line : Bytes) : Option String :=
  if limit < line.length then none else Utf8.decode line

/-- What is read after the last newline. -/
def lastReads (limit : ℕ) (tail : Tail) (rest : Bytes) : List LineRead :=
  match tail with
  | .eof =>
    if rest = [] then [.eof]
    else
      match acceptedText limit rest with
      | none => [.failure]
      | some text => [.line text, .eof]
  | .failure => [.failure]
  | .silent => if limit < rest.length then [.failure] else [.silent]

/-- What is read of a stream that is made of these lines and of `rest`. -/
def lineReads (limit : ℕ) (tail : Tail) (rest : Bytes) : List Bytes → List LineRead
  | [] => lastReads limit tail rest
  | line :: lines =>
    match acceptedText limit line with
    | none => [.failure]
    | some text => .line text :: lineReads limit tail rest lines

theorem decodeLine_of_ne_nil {line : Bytes} (h : line ≠ []) :
    decodeLine line = match Utf8.decode line with
      | none => .failure
      | some text => .line text := by
  cases line with
  | nil => exact absurd rfl h
  | cons b rest => rfl

theorem appendProtocolChunk_eq (limit : ℕ) (line chunk : Bytes) :
    appendProtocolChunk limit line chunk =
      if limit < (line ++ chunk).length then none else some (line ++ chunk) := by
  rw [appendProtocolChunk, List.length_append]

/-- What comes before the first newline is in the chunk, or the chunk is a part of it. -/
theorem split_chunk {chunk more body after : Bytes} (hbody : newline ∉ body)
    (h : chunk ++ more = body ++ newline :: after) :
    (∃ rest, splitNewline chunk = some (body ++ [newline], rest) ∧ after = rest ++ more) ∨
      ∃ rest, splitNewline chunk = none ∧ body = chunk ++ rest ∧
        more = rest ++ newline :: after := by
  rcases List.append_eq_append_iff.mp h with ⟨rest, hchunk, hmore⟩ | ⟨rest, hchunk, hmore⟩
  · refine Or.inr ⟨rest, ?_, hchunk, hmore⟩
    cases hsplit : splitNewline chunk with
    | none => rfl
    | some halves =>
      obtain ⟨hhalves, start, htake, -⟩ := splitNewline_some chunk halves.1 halves.2 hsplit
      refine absurd ?_ hbody
      rw [hchunk, hhalves, htake]
      simp
  · cases rest with
    | nil =>
      refine Or.inr ⟨[], ?_, ?_, hmore.symm⟩
      · rw [hchunk, List.append_nil]
        cases hsplit : splitNewline body with
        | none => rfl
        | some halves =>
          obtain ⟨hhalves, start, htake, -⟩ := splitNewline_some body halves.1 halves.2 hsplit
          refine absurd ?_ hbody
          rw [hhalves, htake]
          simp
      · rw [hchunk, List.append_nil, List.append_nil]
    | cons b rest =>
      obtain ⟨rfl, hafter⟩ := List.cons.inj hmore
      exact Or.inl ⟨rest, by rw [hchunk, splitNewline_append body rest hbody], hafter⟩

/-- Reading a terminated line, of which some bytes are held already. -/
theorem pollLoop_terminated (limit : ℕ) (tail : Tail) (line : Bytes) {body after : Bytes}
    (hbody : newline ∉ body) {polls : List Poll}
    (hbytes : pollBytes polls = body ++ newline :: after) :
    if limit < (line ++ (body ++ [newline])).length then
      (pollLoop limit tail line polls).read = .failure
    else
      (pollLoop limit tail line polls).read = decodeLine (line ++ (body ++ [newline])) ∧
        pollBytes (pollLoop limit tail line polls).polls = after := by
  induction polls generalizing line body with
  | nil =>
    have hlength := congrArg List.length hbytes
    rw [List.length_append, List.length_cons] at hlength
    exact absurd hlength (Nat.ne_of_lt (Nat.succ_pos _))
  | cons poll polls ih =>
    cases poll with
    | pending => exact ih line hbody hbytes
    | ready chunk =>
      rw [pollLoop]
      rcases split_chunk hbody hbytes with ⟨rest, hsplit, hafter⟩ | ⟨rest, hsplit, rfl, hmore⟩
      · simp only [hsplit, appendProtocolChunk_eq]
        split
        · rfl
        · exact ⟨rfl, by rw [pollBytes_consumePoll, hafter]⟩
      · simp only [hsplit, appendProtocolChunk_eq]
        rw [List.mem_append, not_or] at hbody
        have hrest := ih (line ++ chunk.val) hbody.2 hmore
        rw [List.append_assoc, ← List.append_assoc chunk.val] at hrest
        by_cases hlong : limit < (line ++ chunk.val).length
        · have hwhole : limit < (line ++ (chunk.val ++ rest ++ [newline])).length := by
            simp only [List.length_append] at hlong ⊢
            omega
          rw [if_pos hwhole, if_pos hlong]
        · rw [if_neg hlong]
          exact hrest

/-- What a stream without a newline ends a read with. -/
def lastRead (tail : Tail) (line : Bytes) : LineRead :=
  match tail with
  | .eof => decodeLine line
  | .failure => .failure
  | .silent => .silent

/-- Reading what stands after the last newline, of which some bytes are held already. -/
theorem pollLoop_rest {limit : ℕ} (tail : Tail) (line : Bytes) (hline : line.length ≤ limit)
    {polls : List Poll} (hrest : newline ∉ pollBytes polls) :
    if limit < (line ++ pollBytes polls).length then
      (pollLoop limit tail line polls).read = .failure
    else
      (pollLoop limit tail line polls).read = lastRead tail (line ++ pollBytes polls) ∧
        pollBytes (pollLoop limit tail line polls).polls = [] := by
  induction polls generalizing line with
  | nil =>
    rw [pollBytes, List.append_nil, if_neg (Nat.not_lt.mpr hline)]
    cases tail <;> exact ⟨rfl, rfl⟩
  | cons poll polls ih =>
    cases poll with
    | pending => exact ih line hline hrest
    | ready chunk =>
      rw [pollBytes, List.mem_append, not_or] at hrest
      have hsplit : splitNewline chunk.val = none := by
        cases hsplit : splitNewline chunk.val with
        | none => rfl
        | some halves =>
          obtain ⟨hhalves, body, htake, -⟩ := splitNewline_some chunk.val halves.1 halves.2 hsplit
          refine absurd ?_ hrest.1
          rw [hhalves, htake]
          simp
      rw [pollBytes, ← List.append_assoc, pollLoop]
      simp only [hsplit, appendProtocolChunk_eq]
      by_cases hlong : limit < (line ++ chunk.val).length
      · have hwhole : limit < (line ++ chunk.val ++ pollBytes polls).length := by
          rw [List.length_append]
          omega
        rw [if_pos hwhole, if_pos hlong]
      · rw [if_neg hlong]
        exact ih _ (Nat.le_of_not_lt hlong) hrest.2

end Lines

section Reads

variable {limit : ℕ}

theorem readLimitedLineAsync_terminated (limit : ℕ) {reader : AsyncReader} {body after : Bytes}
    (hbody : newline ∉ body) (hbytes : reader.bytes = body ++ newline :: after) :
    if limit < (body ++ [newline]).length then
      (readLimitedLineAsync limit reader).1 = .failure
    else
      (readLimitedLineAsync limit reader).1 = decodeLine (body ++ [newline]) ∧
        (readLimitedLineAsync limit reader).2.bytes = after :=
  pollLoop_terminated limit reader.tail [] hbody hbytes

theorem readLimitedLineAsync_rest (limit : ℕ) {reader : AsyncReader}
    (hrest : newline ∉ reader.bytes) :
    if limit < reader.bytes.length then (readLimitedLineAsync limit reader).1 = .failure
    else
      (readLimitedLineAsync limit reader).1 = lastRead reader.tail reader.bytes ∧
        (readLimitedLineAsync limit reader).2.bytes = [] :=
  pollLoop_rest reader.tail [] (Nat.zero_le limit) hrest

/-- Every line that is read makes the rest of the stream shorter. -/
theorem readLimitedLineAsync_length_lt {reader : AsyncReader} (text : String)
    (h : (readLimitedLineAsync limit reader).1 = .line text) :
    (readLimitedLineAsync limit reader).2.bytes.length < reader.bytes.length := by
  cases hsplit : splitNewline reader.bytes with
  | some halves =>
    obtain ⟨hbytes, body, htake, hbody⟩ := splitNewline_some reader.bytes halves.1 halves.2 hsplit
    rw [htake, List.append_assoc, List.singleton_append] at hbytes
    have hread := readLimitedLineAsync_terminated limit hbody hbytes
    split at hread
    · rw [hread] at h
      cases h
    · rw [hread.2, hbytes, List.length_append, List.length_cons]
      omega
  | none =>
    have hread := readLimitedLineAsync_rest limit (splitNewline_none _ hsplit)
    split at hread
    · rw [hread] at h
      cases h
    · rw [hread.2]
      refine List.length_pos_iff.mpr fun hnil => ?_
      rw [hread.1, hnil] at h
      cases htail : reader.tail <;> rw [htail] at h <;> cases h

/-- Reading a stream until a read returns no line. -/
def readAllAsync (limit : ℕ) (reader : AsyncReader) : List LineRead :=
  match _hread : (readLimitedLineAsync limit reader).1 with
  | .line text => .line text :: readAllAsync limit (readLimitedLineAsync limit reader).2
  | .eof => [.eof]
  | .failure => [.failure]
  | .silent => [.silent]
termination_by reader.bytes.length
decreasing_by exact readLimitedLineAsync_length_lt text _hread

def readAll (limit : ℕ) (reader : Reader) : List LineRead :=
  match _hread : (readLimitedLine limit reader).1 with
  | .line text => .line text :: readAll limit (readLimitedLine limit reader).2
  | .eof => [.eof]
  | .failure => [.failure]
  | .silent => [.silent]
termination_by reader.bytes.length
decreasing_by exact readLimitedLine_length_lt text _hread

/-- A read that returns no line is the last one. -/
theorem readAllAsync_stop {reader : AsyncReader} {read : LineRead}
    (h : (readLimitedLineAsync limit reader).1 = read) (hstop : ∀ text, read ≠ .line text) :
    readAllAsync limit reader = [read] := by
  rw [readAllAsync]
  split
  · rename_i text hread
    exact absurd (h.symm.trans hread) (hstop text)
  · rename_i hread
    rw [← h, hread]
  · rename_i hread
    rw [← h, hread]
  · rename_i hread
    rw [← h, hread]

theorem readAllAsync_line {reader : AsyncReader} {text : String}
    (h : (readLimitedLineAsync limit reader).1 = .line text) :
    readAllAsync limit reader =
      .line text :: readAllAsync limit (readLimitedLineAsync limit reader).2 := by
  rw [readAllAsync]
  split
  · rename_i other hread
    rw [h] at hread
    cases hread
    rfl
  · rename_i hread
    rw [h] at hread
    cases hread
  · rename_i hread
    rw [h] at hread
    cases hread
  · rename_i hread
    rw [h] at hread
    cases hread

@[simp] theorem readLimitedLineAsync_tail (reader : AsyncReader) :
    (readLimitedLineAsync limit reader).2.tail = reader.tail := rfl

/-- A reader without bytes is at its end, and stays there. -/
theorem readAllAsync_nil {reader : AsyncReader} (h : reader.bytes = []) :
    readAllAsync limit reader = lastReads limit reader.tail [] := by
  have hnil : newline ∉ reader.bytes := by simp [h]
  have hread := readLimitedLineAsync_rest limit hnil
  have hshort : ¬ limit < ([] : Bytes).length := Nat.not_lt.mpr (Nat.zero_le limit)
  rw [h, if_neg hshort] at hread
  rw [readAllAsync_stop hread.1]
  · cases reader.tail <;> rfl
  · cases reader.tail <;> intro text hline <;> cases hline

theorem readAllAsync_rest {reader : AsyncReader} (h : newline ∉ reader.bytes) :
    readAllAsync limit reader = lastReads limit reader.tail reader.bytes := by
  by_cases hnil : reader.bytes = []
  · rw [hnil]
    exact readAllAsync_nil hnil
  · have hread := readLimitedLineAsync_rest limit h
    by_cases hlong : limit < reader.bytes.length
    · rw [if_pos hlong] at hread
      rw [readAllAsync_stop hread (by simp), lastReads.eq_def, acceptedText]
      cases reader.tail <;> simp [hlong, hnil]
    · rw [if_neg hlong] at hread
      obtain ⟨hread, hafter⟩ := hread
      cases htail : reader.tail with
      | eof =>
        rw [htail, lastRead, decodeLine_of_ne_nil hnil] at hread
        rw [lastReads, if_neg hnil, acceptedText, if_neg hlong]
        cases htext : Utf8.decode reader.bytes with
        | none =>
          rw [htext] at hread
          exact readAllAsync_stop hread (by simp)
        | some text =>
          rw [htext] at hread
          rw [readAllAsync_line hread, readAllAsync_nil hafter, readLimitedLineAsync_tail, htail]
          rfl
      | failure =>
        rw [htail] at hread
        exact readAllAsync_stop hread (by simp)
      | silent =>
        rw [htail] at hread
        rw [lastReads, if_neg hlong]
        exact readAllAsync_stop hread (by simp)

/-- Reading until the end finds the lines of the stream. -/
theorem readAllAsync_eq {lines : List Bytes} {rest : Bytes}
    (hlines : ∀ line ∈ lines, IsTerminated line) (hrest : newline ∉ rest) {reader : AsyncReader}
    (hbytes : reader.bytes = lines.flatten ++ rest) :
    readAllAsync limit reader = lineReads limit reader.tail rest lines := by
  induction lines generalizing reader with
  | nil =>
    rw [List.flatten_nil, List.nil_append] at hbytes
    rw [lineReads, ← hbytes]
    exact readAllAsync_rest (by rwa [hbytes])
  | cons line lines ih =>
    obtain ⟨body, rfl, hbody⟩ := hlines line (by simp)
    have hne : body ++ [newline] ≠ [] := by simp
    have hsplit : reader.bytes = body ++ newline :: (lines.flatten ++ rest) := by
      rw [hbytes, List.flatten_cons]
      simp only [List.append_assoc, List.cons_append, List.nil_append]
    have hread := readLimitedLineAsync_terminated limit hbody hsplit
    rw [lineReads, acceptedText]
    by_cases hlong : limit < (body ++ [newline]).length
    · rw [if_pos hlong] at hread ⊢
      exact readAllAsync_stop hread (by simp)
    · rw [if_neg hlong] at hread ⊢
      obtain ⟨hread, hafter⟩ := hread
      rw [decodeLine_of_ne_nil hne] at hread
      cases htext : Utf8.decode (body ++ [newline]) with
      | none =>
        rw [htext] at hread
        exact readAllAsync_stop hread (by simp)
      | some text =>
        rw [htext] at hread
        rw [readAllAsync_line hread,
          ih (fun line hline => hlines line (List.mem_cons_of_mem _ hline)) hafter,
          readLimitedLineAsync_tail]

/-- The two versions return the same. -/
theorem readAll_toAsync (limit : ℕ) (reader : Reader) :
    readAll limit reader = readAllAsync limit reader.toAsync := by
  induction hn : reader.bytes.length using Nat.strongRecOn generalizing reader with
  | _ n ih =>
    obtain ⟨hread, hrest⟩ := readLimitedLine_toAsync limit reader
    rw [readAll]
    split
    · rename_i text hline
      have hlt := readLimitedLine_length_lt text hline
      rw [ih _ (by omega) _ rfl, hrest, ← readAllAsync_line (hread.symm.trans hline)]
    all_goals
      rename_i hend
      exact (readAllAsync_stop (hread.symm.trans hend) (by simp)).symm

/-- The values that the line of the synchronous loop has, which is the same loop. -/
def Reader.held (limit : ℕ) (reader : Reader) : List Bytes := reader.toAsync.held limit

/-- Both versions read the lines of the stream, however its bytes arrive, and hold no line
that is longer than the limit. -/
theorem readAll_lines (limit : ℕ) (bytes : Bytes) :
    ∃ (lines : List Bytes) (rest : Bytes), bytes = lines.flatten ++ rest ∧
      (∀ line ∈ lines, IsTerminated line) ∧ newline ∉ rest ∧
      (∀ reader : Reader, reader.bytes = bytes →
        readAll limit reader = lineReads limit reader.tail rest lines ∧
          ∀ held ∈ reader.held limit, held.length ≤ limit) ∧
      (∀ reader : AsyncReader, reader.bytes = bytes →
        readAllAsync limit reader = lineReads limit reader.tail rest lines ∧
          ∀ held ∈ reader.held limit, held.length ≤ limit) := by
  obtain ⟨lines, rest, hbytes, hlines, hrest⟩ := exists_lines bytes
  have hheld (reader : AsyncReader) : ∀ held ∈ reader.held limit, held.length ≤ limit :=
    pollLoop_held (Nat.zero_le limit) reader.polls
  refine ⟨lines, rest, hbytes, hlines, hrest, ?_, ?_⟩
  · intro reader hreader
    refine ⟨?_, hheld reader.toAsync⟩
    rw [readAll_toAsync]
    exact readAllAsync_eq hlines hrest
      (by rw [Reader.toAsync_bytes, hreader, hbytes])
  · intro reader hreader
    exact ⟨readAllAsync_eq hlines hrest (hreader.trans hbytes), hheld reader⟩

end Reads

end StuntDouble.LineReader
