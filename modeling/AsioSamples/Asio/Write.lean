import AsioSamples.Asio.ConsumingBuffers
import AsioSamples.Socket

/-!
# Writing all of the data

`detail::write` and `detail::write_op` of `boost/asio/impl/write.hpp`: loops of `write_some` and of
`async_write_some` over the buffers that remain. The stream takes as many of the bytes that it is
offered as it likes, and says whether it failed. Both loops hand over a first part of the data, the
whole of it unless the stream fails, and they do the same as long as the stream takes something
each time.
-/

namespace AsioSamples.Asio

open Framework

def defaultMaxTransferSize : ℕ := 65536

/-- What a write operation asks after each transfer: how many bytes the next one may have, none
when the operation is complete. -/
abbrev CompletionCondition := Option ErrorCode → ℕ → ℕ

def transferAll : CompletionCondition := fun err _ =>
  if err.isSome then 0 else defaultMaxTransferSize

def transferAtLeast (minimum : ℕ) : CompletionCondition := fun err bytesTransferred =>
  if err.isSome ∨ minimum ≤ bytesTransferred then 0 else defaultMaxTransferSize

def transferExactly (size : ℕ) : CompletionCondition := fun err bytesTransferred =>
  if err.isSome ∨ size ≤ bytesTransferred then 0
  else if size - bytesTransferred < defaultMaxTransferSize then size - bytesTransferred
  else defaultMaxTransferSize

/-- How the stream answers to a transfer: it takes at most `bytesTransferred` of what it is
offered. `cancelled` tells whether the operation was cancelled until then. -/
structure Answer where
  bytesTransferred : ℕ
  ec : Option ErrorCode := none
  cancelled : Bool := false

/-- What an operation reports, and what the stream got. -/
structure Written (α : Type) where
  ec : Option ErrorCode
  totalConsumed : ℕ
  sent : List α

variable {σ α : Type}

/-- The loop of `detail::write`. Without an answer it does not return. -/
def writeLoop (C : Cursor σ α) (completionCondition : CompletionCondition) :
    List Answer → Option ErrorCode → σ → List α → Option (Written α)
  | answers, ec, tmp, sent =>
    let maxSize := completionCondition ec (C.totalConsumed tmp)
    if C.empty tmp ∨ maxSize = 0 then some ⟨ec, C.totalConsumed tmp, sent⟩
    else
      match answers with
      | [] => none
      | answer :: answers =>
        let given := C.given maxSize answer.bytesTransferred tmp
        writeLoop C completionCondition answers answer.ec (C.consume given.length tmp)
          (sent ++ given)

def write (C : Cursor σ α) (completionCondition : CompletionCondition) (tmp : σ)
    (answers : List Answer) : Option (Written α) :=
  writeLoop C completionCondition answers none tmp []

/-- `write_op` from a call of `async_write_some` on. -/
def writeOp (C : Cursor σ α) (completionCondition : CompletionCondition) :
    List Answer → ℕ → σ → List α → Option (Written α)
  | [], _, _, _ => none
  | answer :: answers, maxSize, buffers, sent =>
    let given := C.given maxSize answer.bytesTransferred buffers
    let buffers := C.consume given.length buffers
    let total := C.totalConsumed buffers
    let maxSize := completionCondition answer.ec total
    if (answer.ec = none ∧ given.length = 0) ∨ C.empty buffers then
      some ⟨answer.ec, total, sent ++ given⟩
    else if maxSize = 0 then some ⟨answer.ec, total, sent ++ given⟩
    else if answer.cancelled then some ⟨some .operationAborted, total, sent ++ given⟩
    else writeOp C completionCondition answers maxSize buffers (sent ++ given)

/-- `start_write_op`: the first transfer takes place even if there is nothing to write. -/
def asyncWrite (C : Cursor σ α) (completionCondition : CompletionCondition) (buffers : σ)
    (answers : List Answer) : Option (Written α) :=
  writeOp C completionCondition answers
    (completionCondition none (C.totalConsumed buffers)) buffers []

section Loops

variable {C : Cursor σ α} {completionCondition : CompletionCondition} {w : Written α}
  {answers : List Answer} {ec : Option ErrorCode} {tmp : σ} {sent : List α}

/-- The operation is complete before the next transfer. -/
def Done (C : Cursor σ α) (completionCondition : CompletionCondition) (ec : Option ErrorCode)
    (tmp : σ) : Prop :=
  C.empty tmp ∨ completionCondition ec (C.totalConsumed tmp) = 0

theorem writeLoop_done (h : Done C completionCondition ec tmp) :
    writeLoop C completionCondition answers ec tmp sent = some ⟨ec, C.totalConsumed tmp, sent⟩ := by
  unfold Done at h
  unfold writeLoop
  exact if_pos h

theorem writeLoop_nil (h : ¬ Done C completionCondition ec tmp) :
    writeLoop C completionCondition [] ec tmp sent = none := by
  unfold Done at h
  unfold writeLoop
  exact if_neg h

theorem writeLoop_cons {answer : Answer} {given : List α}
    (h : ¬ Done C completionCondition ec tmp)
    (hgiven : given = C.given (completionCondition ec (C.totalConsumed tmp))
      answer.bytesTransferred tmp) :
    writeLoop C completionCondition (answer :: answers) ec tmp sent =
      writeLoop C completionCondition answers answer.ec (C.consume given.length tmp)
        (sent ++ given) := by
  unfold Done at h
  rw [writeLoop, hgiven]
  exact if_neg h

/-- What holds where the operation is done, and of a transfer with the rest of the loop if it holds
of the rest, holds of every loop that comes back. -/
theorem writeLoop_induction
    {motive : List Answer → Option ErrorCode → σ → List α → Written α → Prop}
    (hdone : ∀ {answers ec tmp sent}, Done C completionCondition ec tmp →
      motive answers ec tmp sent ⟨ec, C.totalConsumed tmp, sent⟩)
    (hstep : ∀ {answer answers ec tmp sent given w}, ¬ Done C completionCondition ec tmp →
      given = C.given (completionCondition ec (C.totalConsumed tmp)) answer.bytesTransferred tmp →
      motive answers answer.ec (C.consume given.length tmp) (sent ++ given) w →
      motive (answer :: answers) ec tmp sent w) (answers : List Answer) :
    ∀ {ec tmp sent w}, writeLoop C completionCondition answers ec tmp sent = some w →
      motive answers ec tmp sent w := by
  induction answers with
  | nil =>
      intro ec tmp sent w h
      by_cases hd : Done C completionCondition ec tmp
      · rw [writeLoop_done hd] at h
        exact Option.some.inj h ▸ hdone hd
      · rw [writeLoop_nil hd] at h
        cases h
  | cons answer answers ih =>
      intro ec tmp sent w h
      by_cases hd : Done C completionCondition ec tmp
      · rw [writeLoop_done hd] at h
        exact Option.some.inj h ▸ hdone hd
      · rw [writeLoop_cons hd rfl] at h
        exact hstep hd rfl (ih h)

variable {data : List α} {At : ℕ → σ → Prop}

/-- What was sent is a first part of the data, and the operation is over for a reason. -/
theorem writeLoop_sent (hC : C.Serves data At) {k : ℕ} (hk : At k tmp)
    (h : writeLoop C completionCondition answers ec tmp (data.take k) = some w) :
    w.sent = data.take w.totalConsumed ∧ w.totalConsumed ≤ data.length ∧
      (w.totalConsumed = data.length ∨ completionCondition w.ec w.totalConsumed = 0) ∧
      (w.ec = ec ∨ ∃ answer ∈ answers, w.ec = answer.ec) := by
  apply writeLoop_induction (motive := fun answers ec tmp sent w =>
    ∀ k, At k tmp → sent = data.take k →
      w.sent = data.take w.totalConsumed ∧ w.totalConsumed ≤ data.length ∧
        (w.totalConsumed = data.length ∨ completionCondition w.ec w.totalConsumed = 0) ∧
        (w.ec = ec ∨ ∃ answer ∈ answers, w.ec = answer.ec)) _ _ answers h k hk rfl
  · intro answers ec tmp sent hdone k hk hsent
    rw [Done, hC.totalConsumed hk] at hdone
    rw [hC.totalConsumed hk]
    exact ⟨hsent, hC.le hk, hdone.imp_left (hC.empty_iff hk).mp, .inl rfl⟩
  · intro answer answers ec tmp sent given w _ hgiven ih k hk hsent
    subst hgiven hsent
    obtain ⟨hall, hle, hend, hec⟩ := ih _ (hC.advance hk) (hC.take_append_given hk)
    refine ⟨hall, hle, hend, .inr ?_⟩
    rcases hec with hec | ⟨a, ha, hec⟩
    · exact ⟨answer, List.mem_cons_self, hec⟩
    · exact ⟨a, List.mem_cons_of_mem answer ha, hec⟩

/-- A condition that leaves room for `size` bytes is never exceeded. -/
theorem writeLoop_le (hC : C.Serves data At) {size k : ℕ} (hk : At k tmp) (hsize : k ≤ size)
    (hbound : ∀ ec n, n ≤ size → completionCondition ec n ≤ size - n)
    (h : writeLoop C completionCondition answers ec tmp sent = some w) :
    w.totalConsumed ≤ size := by
  apply writeLoop_induction (motive := fun _ _ tmp _ w =>
    ∀ k, At k tmp → k ≤ size → w.totalConsumed ≤ size) _ _ answers h k hk hsize
  · intro answers ec tmp sent _ k hk hsize
    rw [hC.totalConsumed hk]
    exact hsize
  · intro answer answers ec tmp sent given w _ hgiven ih k hk hsize
    subst hgiven
    apply ih _ (hC.advance hk)
    have hgiven := hC.given_length_le hk (m := completionCondition ec (C.totalConsumed tmp))
      (n := answer.bytesTransferred)
    have hmax := hbound ec k hsize
    rw [hC.totalConsumed hk] at hgiven ⊢
    omega

/-- The stream takes something whenever it does not fail. -/
def Progresses (answers : List Answer) : Prop :=
  ∀ answer ∈ answers, answer.ec = none → 0 < answer.bytesTransferred

instance decidableProgresses (answers : List Answer) : Decidable (Progresses answers) :=
  inferInstanceAs (Decidable (∀ answer ∈ answers, _ → _))

theorem given_pos (hC : C.Serves data At) {k n : ℕ} (hk : At k tmp)
    (hdone : ¬ Done C completionCondition ec tmp) (hn : 0 < n) :
    0 < (C.given (completionCondition ec (C.totalConsumed tmp)) n tmp).length := by
  obtain ⟨hempty, hmax⟩ := not_or.mp hdone
  apply hC.given_pos hk (Nat.pos_of_ne_zero hmax) hn
  exact Nat.lt_of_le_of_ne (hC.le hk) fun h => hempty ((hC.empty_iff hk).mpr h)

/-- A stream that takes something each time is asked no more often than there are bytes. -/
theorem writeLoop_returns (hC : C.Serves data At)
    (hfails : ∀ e n, completionCondition (some e) n = 0) (answers : List Answer) :
    ∀ {ec k tmp} (sent : List α), At k tmp → Progresses answers →
      (ec = none → data.length ≤ k + answers.length) →
      (writeLoop C completionCondition answers ec tmp sent).isSome := by
  induction answers with
  | nil =>
      intro ec k tmp sent hk _ hlength
      have hdone : Done C completionCondition ec tmp := by
        cases ec with
        | none => exact .inl ((hC.empty_iff hk).mpr (Nat.le_antisymm (hC.le hk) (hlength rfl)))
        | some e => exact .inr (hfails e _)
      rw [writeLoop_done hdone]
      rfl
  | cons answer answers ih =>
      intro ec k tmp sent hk hprogress hlength
      by_cases hdone : Done C completionCondition ec tmp
      · rw [writeLoop_done hdone]
        rfl
      · rw [writeLoop_cons hdone rfl]
        apply ih _ (hC.advance hk) fun a ha => hprogress a (List.mem_cons_of_mem answer ha)
        intro hanswer
        have hec : ec = none := by
          cases ec with
          | none => rfl
          | some e => exact absurd (.inr (hfails e _)) hdone
        have hgiven := given_pos hC hk hdone (hprogress answer List.mem_cons_self hanswer)
        have hle := hlength hec
        rw [List.length_cons] at hle
        omega

theorem writeOp_eq_writeLoop (hC : C.Serves data At) (answers : List Answer) :
    ∀ {ec k tmp} (sent : List α), At k tmp → Progresses answers →
      (∀ answer ∈ answers, answer.cancelled = false) → ¬ Done C completionCondition ec tmp →
      writeOp C completionCondition answers (completionCondition ec (C.totalConsumed tmp)) tmp
        sent = writeLoop C completionCondition answers ec tmp sent := by
  induction answers with
  | nil =>
      intro ec k tmp sent _ _ _ hdone
      rw [writeLoop_nil hdone, writeOp]
  | cons answer answers ih =>
      intro ec k tmp sent hk hprogress hcancelled hdone
      rw [writeLoop_cons hdone rfl, writeOp]
      split
      · rename_i hstop
        have hnext : C.empty (C.consume (C.given (completionCondition ec (C.totalConsumed tmp))
            answer.bytesTransferred tmp).length tmp) = true := by
          refine hstop.resolve_left fun h => ?_
          have hgiven := given_pos hC hk hdone (hprogress answer List.mem_cons_self h.1)
          exact absurd h.2 (Nat.ne_of_gt hgiven)
        exact (writeLoop_done (.inl hnext)).symm
      · rename_i hgoes
        split
        · rename_i hzero
          exact (writeLoop_done (.inr hzero)).symm
        · rename_i hmore
          rw [if_neg (by rw [hcancelled answer List.mem_cons_self]; exact Bool.false_ne_true)]
          apply ih _ (hC.advance hk)
          · exact fun a ha => hprogress a (List.mem_cons_of_mem answer ha)
          · exact fun a ha => hcancelled a (List.mem_cons_of_mem answer ha)
          · exact not_or.mpr ⟨(not_or.mp hgoes).2, hmore⟩

/-- The two loops send the same and report the same, when there is something to write, the stream
takes something each time, and nobody cancels. -/
theorem asyncWrite_eq_write (hC : C.Serves data At) (answers : List Answer) (htmp : At 0 tmp)
    (hdata : data ≠ []) (hstart : completionCondition none 0 ≠ 0) (hprogress : Progresses answers)
    (hcancelled : ∀ answer ∈ answers, answer.cancelled = false) :
    asyncWrite C completionCondition tmp answers = write C completionCondition tmp answers := by
  apply writeOp_eq_writeLoop hC answers [] htmp hprogress hcancelled
  rintro (hempty | hzero)
  · have hlength := (hC.empty_iff htmp).mp hempty
    exact hdata (List.length_eq_zero_iff.mp hlength.symm)
  · rw [hC.totalConsumed htmp] at hzero
    exact hstart hzero

end Loops

/-- The buffers that a write operation gets. Their type decides which class stands for what is
left of them. -/
inductive ConstBuffers (α : Type) where
  | sequence (maxBuffers : ℕ) (hmax : 0 < maxBuffers) (buffers : List (List α))
  | single (buffer : List α)
  | array (first second : List α)

namespace ConstBuffers

def elements : ConstBuffers α → List α
  | .sequence _ _ buffers => buffers.flatten
  | .single buffer => buffer
  | .array first second => first ++ second

def Proxy : ConstBuffers α → Type
  | .sequence _ _ _ => ConsumingBuffers α
  | .single _ => ConsumingSingleBuffer α
  | .array _ _ => ConsumingArray α

def proxy : (b : ConstBuffers α) → b.Proxy
  | .sequence _ _ buffers => ConsumingBuffers.ofBuffers buffers
  | .single buffer => { buffer : ConsumingSingleBuffer α }
  | .array first second => { first, second : ConsumingArray α }

def cursor : (b : ConstBuffers α) → Cursor b.Proxy α
  | .sequence maxBuffers _ _ => ConsumingBuffers.cursor maxBuffers
  | .single _ => ConsumingSingleBuffer.cursor
  | .array _ _ => ConsumingArray.cursor

def At : (b : ConstBuffers α) → ℕ → b.Proxy → Prop
  | .sequence _ _ buffers => ConsumingBuffers.At buffers
  | .single buffer => ConsumingSingleBuffer.At buffer
  | .array first second => ConsumingArray.At first second

def write (b : ConstBuffers α) : CompletionCondition → List Answer → Option (Written α) :=
  fun completionCondition => Asio.write b.cursor completionCondition b.proxy

def asyncWrite (b : ConstBuffers α) : CompletionCondition → List Answer → Option (Written α) :=
  fun completionCondition => Asio.asyncWrite b.cursor completionCondition b.proxy

theorem cursor_serves (b : ConstBuffers α) : b.cursor.Serves b.elements b.At := by
  cases b with
  | sequence maxBuffers hmax buffers => exact ConsumingBuffers.cursor_serves hmax buffers
  | single buffer => exact ConsumingSingleBuffer.cursor_serves buffer
  | array first second => exact ConsumingArray.cursor_serves first second

theorem at_proxy (b : ConstBuffers α) : b.At 0 b.proxy := by
  cases b with
  | sequence maxBuffers hmax buffers => exact ConsumingBuffers.at_ofBuffers buffers
  | single buffer => exact ⟨rfl, Nat.zero_le _⟩
  | array first second => exact ⟨rfl, Nat.zero_le _⟩

variable {b : ConstBuffers α} {w : Written α} {answers : List Answer}

theorem write_sent {completionCondition : CompletionCondition}
    (h : b.write completionCondition answers = some w) :
    w.sent = b.elements.take w.totalConsumed ∧ w.totalConsumed ≤ b.elements.length ∧
      (w.totalConsumed = b.elements.length ∨ completionCondition w.ec w.totalConsumed = 0) ∧
      (w.ec = none ∨ ∃ answer ∈ answers, w.ec = answer.ec) :=
  writeLoop_sent b.cursor_serves b.at_proxy h

/-- A write operation for all of the data comes back, and has sent all of it or reports how the
stream failed. -/
theorem write_transfers_all (b : ConstBuffers α) (answers : List Answer)
    (hprogress : Progresses answers) (hlength : b.elements.length ≤ answers.length) :
    ∃ w, b.write transferAll answers = some w ∧ w.sent = b.elements.take w.totalConsumed ∧
      (w.ec = none → w.sent = b.elements) ∧
      ∀ e, w.ec = some e → ∃ answer ∈ answers, answer.ec = some e := by
  have hreturns : (b.write transferAll answers).isSome :=
    writeLoop_returns b.cursor_serves (fun _ _ => rfl) answers [] b.at_proxy hprogress
      fun _ => by simpa using hlength
  obtain ⟨w, hw⟩ := Option.isSome_iff_exists.mp hreturns
  obtain ⟨hsent, -, hend, hec⟩ := write_sent hw
  refine ⟨w, hw, hsent, fun hnone => ?_, fun e he => ?_⟩
  · rw [hnone] at hend
    rw [hsent, hend.resolve_right (by simp [transferAll, defaultMaxTransferSize]),
      List.take_length]
  · rw [he] at hec
    obtain ⟨answer, hanswer, heq⟩ := hec.resolve_left (Option.some_ne_none e)
    exact ⟨answer, hanswer, heq.symm⟩

/-- Two of three buffers fit into a transfer. The stream fails after the third element. -/
def threeBuffers : ConstBuffers ℕ := .sequence 2 (by decide) [[1, 2], [], [3, 4, 5]]

def brokenPipe : List Answer :=
  [⟨1, none, false⟩, ⟨2, none, false⟩, ⟨0, some (.system 32 "Broken pipe"), false⟩,
    ⟨1, none, false⟩, ⟨1, none, false⟩]

theorem broken_pipe_reported : ∃ w, threeBuffers.write transferAll brokenPipe = some w ∧
    w.sent = [1, 2, 3] ∧ ∃ answer ∈ brokenPipe, answer.ec = some (.system 32 "Broken pipe") := by
  obtain ⟨w, hw, hsent, -, hec⟩ :=
    write_transfers_all threeBuffers brokenPipe (by decide) (by decide)
  have hwritten := Option.some.inj (hw.symm.trans rfl)
  exact ⟨w, hw, by rw [hsent, hwritten]; rfl, hec _ (by rw [hwritten])⟩

/-- The operation for a number of bytes transfers just these, or all that there are. -/
theorem write_transfers_exactly (b : ConstBuffers α) (size : ℕ) (answers : List Answer)
    (h : b.write (transferExactly size) answers = some w) (hec : w.ec = none) :
    w.sent = b.elements.take size := by
  obtain ⟨hsent, hle, hend, -⟩ := write_sent h
  have hbound : w.totalConsumed ≤ size := by
    apply writeLoop_le b.cursor_serves b.at_proxy (Nat.zero_le size) _ h
    intro ec n hn
    unfold transferExactly
    split
    · exact Nat.zero_le _
    · split <;> omega
  rw [hsent]
  rcases hend with hall | hzero
  · rw [hall, List.take_length, List.take_of_length_le (by omega)]
  · have hsize : size ≤ w.totalConsumed := by
      by_contra hlt
      rw [hec, transferExactly, if_neg (by simpa using hlt)] at hzero
      split at hzero
      · omega
      · cases hzero
    rw [Nat.le_antisymm hbound hsize]

theorem four_bytes_transferred : ∃ w,
    threeBuffers.write (transferExactly 4) (List.replicate 4 ⟨3, none, false⟩) = some w ∧
      w.sent = [1, 2, 3, 4] := by
  have hw : threeBuffers.write (transferExactly 4) (List.replicate 4 ⟨3, none, false⟩) =
    some _ := rfl
  exact ⟨_, hw, write_transfers_exactly threeBuffers 4 _ hw rfl⟩

theorem write_transfers_at_least (b : ConstBuffers α) (minimum : ℕ) (answers : List Answer)
    (h : b.write (transferAtLeast minimum) answers = some w) (hec : w.ec = none) :
    min minimum b.elements.length ≤ w.sent.length := by
  obtain ⟨hsent, hle, hend, -⟩ := write_sent h
  rw [hsent, List.length_take]
  rcases hend with hall | hzero
  · omega
  · have hminimum : minimum ≤ w.totalConsumed := by
      by_contra hlt
      rw [hec, transferAtLeast, if_neg (by simpa using hlt)] at hzero
      cases hzero
    omega

/-- Where the stream takes something whenever it does not fail, and nobody cancels, the asynchronous
operation does what the loop does, except that it begins with a transfer when there is nothing to
write. -/
theorem async_write_agrees (b : ConstBuffers α) (completionCondition : CompletionCondition)
    (answer : Answer) (answers : List Answer) (hstart : completionCondition none 0 ≠ 0)
    (hprogress : Progresses (answer :: answers))
    (hcancelled : ∀ a ∈ answer :: answers, a.cancelled = false) :
    b.asyncWrite completionCondition (answer :: answers) =
      if b.elements = [] then some ⟨answer.ec, 0, []⟩
      else b.write completionCondition (answer :: answers) := by
  split
  · rename_i hnil
    have hgiven := b.cursor_serves.given_le b.at_proxy
      (m := completionCondition none (b.cursor.totalConsumed b.proxy))
      (n := answer.bytesTransferred)
    have hnext := b.cursor_serves.advance b.at_proxy
      (m := completionCondition none (b.cursor.totalConsumed b.proxy))
      (n := answer.bytesTransferred)
    rw [hnil, List.length_nil, Nat.zero_add, Nat.le_zero] at hgiven
    rw [hgiven] at hnext
    rw [ConstBuffers.asyncWrite, Asio.asyncWrite, writeOp, hgiven,
      List.length_eq_zero_iff.mp hgiven,
      if_pos (.inr ((b.cursor_serves.empty_iff hnext).mpr (by rw [hnil]; rfl))),
      b.cursor_serves.totalConsumed hnext]
    rfl
  · rename_i hne
    exact asyncWrite_eq_write b.cursor_serves _ b.at_proxy hne hstart hprogress hcancelled

theorem broken_pipe_agrees : threeBuffers.asyncWrite transferAll brokenPipe =
    threeBuffers.write transferAll brokenPipe :=
  async_write_agrees threeBuffers transferAll _ _ (by decide) (by decide) (by decide)

end ConstBuffers

end AsioSamples.Asio
