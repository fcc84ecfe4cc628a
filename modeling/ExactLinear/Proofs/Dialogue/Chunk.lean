import ExactLinear.Dialogue.Chunk
import ExactLinear.Proofs.Dialogue
import ExactLinear.Proofs.ErrorLine

/- The dialogue is the one by chunks. While lines are kept nothing has happened to the
   environment, and the text kept is that of the lines read since the last answer, so
   the line that completes them makes them the next chunk. -/
namespace ExactLinear.Dialogue

/-- Lines that are kept when they have been read: no run of them is a chunk, and they do not begin
with the line that ends the dialogue. -/
structure Kept (front : List String) : Prop where
  head : front.head?.any isExitLine = false
  unfinished : ∀ m, 0 < m → m ≤ front.length → isUnfinished (textOf (front.take m)) = true

section
variable {front rest : List String} {line : String}

theorem kept_nil : Kept [] where
  head := rfl
  unfinished _ hpos hle := absurd hle (Nat.not_le_of_gt hpos)

theorem Kept.head_append_cons (hfront : Kept front) (hline : front = [] → isExitLine line = false) :
    (front ++ line :: rest).head?.any isExitLine = false := by
  cases front with
  | nil => simpa using hline rfl
  | cons first front => exact hfront.head

theorem Kept.concat (hfront : Kept front) (hline : front = [] → isExitLine line = false)
    (h : isUnfinished (textOf (front ++ [line])) = true) : Kept (front ++ [line]) where
  head := hfront.head_append_cons hline
  unfinished m hpos hle := by
    rcases Nat.lt_or_ge front.length m with hm | hm
    · rwa [List.take_of_length_le (by rw [List.length_append]; exact hm)]
    · rw [List.take_append_of_le_length hm]
      exact hfront.unfinished m hpos hm

theorem textOf_eq_empty : textOf front = "" ↔ front = [] := by
  cases front with
  | nil => simp
  | cons first front => simp [textOf]

/-! What the dialogue by chunks does with lines that begin with kept ones. -/

theorem inChunks_of_kept (env : Environment) (hfront : Kept front) :
    inChunks env front = ⟨[], front, env⟩ :=
  inChunks_of_none env hfront.head (chunkLength?_eq_none_iff.mpr hfront.unfinished)

/-- A line that completes the kept ones makes them a chunk. -/
theorem inChunks_of_complete (env : Environment) (hfront : Kept front)
    (hline : front = [] → isExitLine line = false)
    (h : isUnfinished (textOf (front ++ [line])) = false) :
    inChunks env (front ++ line :: rest) =
      (inChunks (env.run (textOf (front ++ [line]))).1 rest).after
        ⟨front ++ [line], (env.run (textOf (front ++ [line]))).2⟩ := by
  have htake : (front ++ line :: rest).take (front.length + 1) = front ++ [line] :=
    List.take_length_add_append 1
  have hdrop : (front ++ line :: rest).drop (front.length + 1) = rest :=
    List.drop_length_add_append 1
  have hsome : chunkLength? (front ++ line :: rest) = some (front.length + 1) := by
    refine chunkLength?_eq_some_iff.mpr ⟨by omega, by simp, by rwa [htake], ?_⟩
    intro m hpos hlt
    rw [List.take_append_of_le_length (by omega)]
    exact hfront.unfinished m hpos (by omega)
  rw [inChunks_of_some env (hfront.head_append_cons hline) hsome, htake, hdrop]

/-! What a line does when it is read. -/

theorem isExit_textOf (env : Environment) :
    isExit ⟨env, textOf front⟩ line = true ↔ front = [] ∧ isExitLine line = true := by
  simp [isExit, isExitLine, textOf_eq_empty]

/-- Running an unfinished text does nothing, and the error tells that more lines are needed. -/
theorem run_of_isUnfinished (env : Environment) {text : String} (h : isUnfinished text = true) :
    ∃ e, env.run text = (env, .error e) ∧ e.isIncomplete = true := by
  rw [isUnfinished] at h
  cases hparse : parse text with
  | ok p => simp [hparse] at h
  | error e =>
    rw [hparse] at h
    exact ⟨.parse e, by rw [Environment.run, hparse], h⟩

theorem isIncomplete_of_run {env after : Environment} {text : String} {e : SourceError}
    (h : env.run text = (after, .error e)) (hfinished : isUnfinished text = false) :
    e.isIncomplete = false := by
  rw [isUnfinished, parse] at hfinished
  rcases Environment.run_error_cases h with ⟨error, hts, rfl⟩ | ⟨ts, hts, hcases⟩
  · rw [hts] at hfinished
    exact hfinished
  · rw [hts] at hfinished
    rcases hcases with ⟨error, hp, rfl⟩ | ⟨_, error, _, _, rfl⟩
    · dsimp only at hfinished
      rw [hp] at hfinished
      exact hfinished
    · rfl

theorem step_of_isUnfinished (env : Environment)
    (h : isUnfinished (textOf (front ++ [line])) = true) :
    step ⟨env, textOf front⟩ line = ("", ⟨env, textOf (front ++ [line])⟩) := by
  obtain ⟨e, hrun, he⟩ := run_of_isUnfinished env h
  rw [textOf_concat] at hrun ⊢
  simp [step, hrun, he]

theorem step_of_not_isUnfinished (env : Environment)
    (h : isUnfinished (textOf (front ++ [line])) = false) :
    step ⟨env, textOf front⟩ line =
      (Exchange.answer ⟨front ++ [line], (env.run (textOf (front ++ [line]))).2⟩,
        ⟨(env.run (textOf (front ++ [line]))).1, textOf []⟩) := by
  rcases hrun : env.run (textOf (front ++ [line])) with ⟨after, e | _ | value⟩
  · have he := isIncomplete_of_run hrun h
    rw [textOf_concat] at hrun
    simp [step, hrun, he, Exchange.answer]
  · rw [textOf_concat] at hrun
    simp [step, hrun, Exchange.answer]
  · rw [textOf_concat] at hrun
    simp [step, hrun, Exchange.answer]

/-! What is written. -/

theorem prompts_succ (quiet : Bool) (env : Environment) (front : List String) :
    prompts quiet (front.length + 1) =
      prompts quiet front.length ++ (if quiet then "" else prompt ⟨env, textOf front⟩) := by
  have hprompt : prompt ⟨env, textOf front⟩ = if front = [] then ">> " else ".. " := by
    simp [prompt, textOf_eq_empty]
  cases quiet with
  | true => cases front <;> simp [prompts]
  | false =>
    rw [hprompt]
    cases front with
    | nil => simp [prompts]
    | cons first front =>
      simp [prompts, List.replicate_succ', String.join_append, String.append_assoc]

theorem Conversation.written_after (quiet : Bool) (x : Exchange) (c : Conversation) :
    (c.after x).written quiet = prompts quiet x.lines.length ++ (x.answer ++ c.written quiet) := by
  simp [written, String.append_assoc]

/-- That a dialogue, with something written before it, comes to what one by chunks comes to. -/
structure Agrees (quiet : Bool) (before : String) (t : Transcript) (c : Conversation) : Prop where
  readable : t.readable = true
  env : t.env = c.env
  written : before ++ t.output = c.written quiet

theorem converse_agrees (quiet : Bool) (env : Environment) (lines : List String)
    (hfront : Kept front) :
    Agrees quiet (prompts quiet front.length)
      (converse quiet ⟨env, textOf front⟩ (lines.map some)) (inChunks env (front ++ lines)) := by
  induction lines generalizing front env with
  | nil =>
    rw [List.append_nil, inChunks_of_kept env hfront]
    refine ⟨rfl, rfl, ?_⟩
    simp [converse, Transcript.output, Conversation.written, prompts_succ quiet env]
  | cons line lines ih =>
    rw [List.map_cons, converse]
    by_cases hexit : isExit ⟨env, textOf front⟩ line = true
    · obtain ⟨rfl, hline⟩ := (isExit_textOf env).mp hexit
      rw [if_pos hexit, inChunks_of_exit env (by simpa using hline)]
      refine ⟨rfl, rfl, ?_⟩
      rw [output_after]
      simpa [Transcript.output, Conversation.written] using (prompts_succ quiet env []).symm
    · have hline : front = [] → isExitLine line = false := by
        intro hnil
        exact Bool.eq_false_iff.mpr fun h => hexit ((isExit_textOf env).mpr ⟨hnil, h⟩)
      rw [if_neg hexit]
      cases hunfinished : isUnfinished (textOf (front ++ [line])) with
      | true =>
        -- The line is kept as well.
        have hrest := ih env (hfront.concat hline hunfinished)
        rw [← List.append_cons] at hrest
        rw [step_of_isUnfinished env hunfinished]
        refine ⟨hrest.readable, hrest.env, ?_⟩
        have hwritten := hrest.written
        rw [List.length_append, List.length_singleton, prompts_succ quiet env] at hwritten
        simpa [output_after, String.append_assoc] using hwritten
      | false =>
        -- The line completes a chunk, and the next one begins behind it.
        have hrest := ih (env.run (textOf (front ++ [line]))).1 kept_nil
        rw [List.nil_append] at hrest
        rw [step_of_not_isUnfinished env hunfinished,
          inChunks_of_complete env hfront hline hunfinished]
        refine ⟨hrest.readable, hrest.env, ?_⟩
        rw [Conversation.written_after, List.length_append, List.length_singleton,
          prompts_succ quiet env, ← hrest.written]
        simp [output_after, prompts, String.append_assoc]

end

/-! The chunks together. -/

theorem inChunks_proceeds (env : Environment) (lines : List String) :
    Proceeds env (inChunks env lines).exchanges (inChunks env lines).env := by
  fun_induction inChunks env lines with
  | case1 => exact .nil
  | case2 => exact .nil
  | case3 env lines hexit n hchunk after result hrun ih => exact .cons hrun ih

/-- Every line is in one chunk, or dropped at the end, or not read because the dialogue has ended. -/
theorem exists_unread (env : Environment) (lines : List String) :
    ∃ unread, lines = (inChunks env lines).exchanges.flatMap Exchange.lines ++
        (inChunks env lines).dropped ++ unread ∧
      (unread = [] ∨ (inChunks env lines).dropped = [] ∧ unread.head?.any isExitLine = true) := by
  fun_induction inChunks env lines with
  | case1 env lines hexit => exact ⟨lines, rfl, .inr ⟨rfl, hexit⟩⟩
  | case2 env lines hexit hnone => exact ⟨[], by simp, .inl rfl⟩
  | case3 env lines hexit n hchunk after result hrun ih =>
    obtain ⟨unread, hlines, hend⟩ := ih
    generalize inChunks after (lines.drop n) = c at hlines hend
    refine ⟨unread, ?_, hend⟩
    calc lines = lines.take n ++ lines.drop n := (List.take_append_drop n lines).symm
      _ = lines.take n ++ (c.exchanges.flatMap Exchange.lines ++ c.dropped ++ unread) :=
        congrArg _ hlines
      _ = (c.after ⟨lines.take n, result⟩).exchanges.flatMap Exchange.lines ++ c.dropped ++
          unread := by simp

/-- The dialogue over a text is the one by chunks over its lines: it leaves the same environment,
and what is written is the same, with one prompt for each line that is asked for unless it is
quiet. In it no line is run twice, left out or put behind a later one. -/
theorem run_encode (quiet : Bool) (env : Environment) (text : String) :
    ∃ c unread, inChunks env (Lines.ofText text) = c ∧
      (run quiet env (Lines.encode text)).readable = true ∧
      (run quiet env (Lines.encode text)).env = c.env ∧
      (run quiet env (Lines.encode text)).output = c.output quiet ∧
      Proceeds env c.exchanges c.env ∧
      Lines.ofText text = c.exchanges.flatMap Exchange.lines ++ c.dropped ++ unread ∧
      (unread = [] ∨ c.dropped = [] ∧ unread.head?.any isExitLine = true) := by
  have hagrees := converse_agrees quiet env (Lines.ofText text) kept_nil
  obtain ⟨unread, hlines, hend⟩ := exists_unread env (Lines.ofText text)
  have hrun : run quiet env (Lines.encode text) =
      (converse quiet (start env) ((Lines.ofText text).map some)).after
        (if quiet then "" else banner ++ "\n") := by
    rw [run, Lines.ofBytes_encode]
  rw [hrun]
  refine ⟨_, unread, rfl, hagrees.readable, hagrees.env, ?_, inChunks_proceeds env _, hlines, hend⟩
  rw [output_after, Conversation.output]
  exact congrArg _ ((String.empty_append ..).symm.trans hagrees.written)

end ExactLinear.Dialogue
