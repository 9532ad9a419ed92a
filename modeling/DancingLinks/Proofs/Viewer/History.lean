import DancingLinks.Proofs.Viewer.Drawing

/-!
# Sessions and what they showed

An input shows a puzzle, or it pages through the boards of the one shown last (`handle_ok`). So a
session always holds what it showed last, at the number of one of its boards (`Keeps`), which every
input preserves (`Keeps.handle`), and so does every run (`Keeps.after`). What a finished frame of a
recording shows is the picture of the session after the inputs so far (`play_drawn`).
-/

namespace DancingLinks.Viewer

open Paint

variable {s s' start : Session} {input : Input} {inputs : List Input} {shows : List Exhibit}
  {g g' : Gallery} {calls : List Call}

/-! ## Inputs -/

/-- What turns without a new puzzle: the page, or back to the menu. -/
inductive Gallery.Turns (g : Gallery) : Gallery → Prop
  | stay : g.Turns g
  | next : g.Turns g.next
  | previous : g.Turns g.previous
  | openMenu : g.Turns g.openMenu

namespace Session

/-- The calls of a session between its pictures change the window. -/
abbrev ChangesWindow (call : Call) : Prop := ∃ size, call = .setMode size true

theorem makes_present {exhibit : Exhibit} {size : Int} :
    (s.present exhibit size).Makes ChangesWindow :=
  .bind (.make (List.forall_mem_singleton.2 ⟨_, rfl⟩)) fun _ => .pure _

theorem makes_handle (s : Session) (input : Input) : (s.handle input).Makes ChangesWindow := by
  unfold handle
  split
  · exact .pure _
  · exact .bind (.make (List.forall_mem_singleton.2 ⟨_, rfl⟩)) fun _ => .pure _
  · refine .bind (.need _) fun found => ?_
    split
    · rw [choose_eq]
      exact .bind (.need _) fun _ => makes_present
    · exact .pure _
  all_goals exact .pure _

theorem makes_handleAll (s : Session) (inputs : List Input) :
    (s.handleAll inputs).Makes ChangesWindow := by
  induction inputs generalizing s with
  | nil => exact .pure s
  | cons input inputs ih => exact .bind (makes_handle s input) fun next => ih next

/-- What is shown for an action depends on the settings and the lines of the sudoku. -/
theorem exhibitFor_congr (settings : s.settings = s'.settings) (sudoku : s.sudoku = s'.sudoku)
    (action : Action) : s.exhibitFor action = s'.exhibitFor action := by
  cases action with
  | queens => simp only [exhibitFor, settings]
  | sudoku => simp only [exhibitFor, settings, sudoku]

/-- Only a click in the menu shows anything. -/
theorem shown?_eq_none (other : ∀ p, input = .click p → s.gallery.mode ≠ .menu) :
    s.shown? input = none := by
  unfold shown?
  split
  · next p menu => exact absurd menu (other p rfl)
  · rfl

/-- A click in the menu shows the boards of the puzzle whose button it is on, or nothing happens. -/
theorem click_ok {p : Point} (menu : s.gallery.mode = .menu) (done : (s.click p).result = .ok s') :
    s' = s ∧ s.shown? (.click p) = none ∨
      ∃ e action size, s.shown? (.click p) = some e ∧ s.exhibitFor action = .ok (e, size) ∧
        s' = { s with gallery := .display e, screen := windowSize s.settings size } := by
  obtain ⟨found, found_eq, done, -⟩ := of_bind done
  replace found_eq : actionAt s.screen p = .ok found := found_eq
  cases found with
  | none =>
    cases done
    exact .inl ⟨rfl, by simp [shown?, menu, found_eq]⟩
  | some action =>
    replace done : (s.choose action).result = .ok s' := done
    rw [choose_eq] at done
    obtain ⟨⟨e, size⟩, made, done, -⟩ := of_bind done
    replace made : s.exhibitFor action = .ok (e, size) := made
    cases done
    refine .inr ⟨e, action, size, ?_, made, rfl⟩
    simp [shown?, menu, found_eq, made, Except.toOption]

/-- An input that is handled shows a puzzle, or turns what is shown. -/
theorem handle_ok (done : (s.handle input).result = .ok s') :
    s'.settings = s.settings ∧ s'.sudoku = s.sudoku ∧
      ((∃ e action size, s.shown? input = some e ∧ s.exhibitFor action = .ok (e, size) ∧
          s'.gallery = .display e) ∨
        s.shown? input = none ∧ s.gallery.Turns s'.gallery) := by
  unfold handle at done
  split at done
  · cases done
    exact ⟨rfl, rfl, .inr ⟨shown?_eq_none nofun, .stay⟩⟩
  · cases done
    exact ⟨rfl, rfl, .inr ⟨shown?_eq_none nofun, .stay⟩⟩
  · next menu =>
    rcases click_ok menu done with ⟨rfl, none⟩ | ⟨e, action, size, some, made, rfl⟩
    · exact ⟨rfl, rfl, .inr ⟨none, .stay⟩⟩
    · exact ⟨rfl, rfl, .inl ⟨e, action, size, some, made, rfl⟩⟩
  · cases done
    exact ⟨rfl, rfl, .inr ⟨shown?_eq_none nofun, .openMenu⟩⟩
  · cases done
    exact ⟨rfl, rfl, .inr ⟨shown?_eq_none nofun, .next⟩⟩
  · cases done
    exact ⟨rfl, rfl, .inr ⟨shown?_eq_none nofun, .previous⟩⟩
  · next notClick _ _ _ =>
    cases done
    exact ⟨rfl, rfl, .inr ⟨shown?_eq_none notClick, .stay⟩⟩

end Session

/-! ## What a session keeps -/

theorem Gallery.Turns.exhibit_eq (turns : g.Turns g') : g'.exhibit = g.exhibit := by
  cases turns with
  | stay | previous | openMenu => rfl
  | next =>
    unfold Gallery.next
    split <;> rfl

/-- Only a new puzzle opens the board. -/
theorem Gallery.Turns.mode_eq (turns : g.Turns g') (board : g'.mode = .board) :
    g.mode = .board := by
  cases turns with
  | stay | previous => exact board
  | next =>
    unfold Gallery.next at board
    split at board <;> exact board
  | openMenu => cases board

/-- The number of the board that is shown stays below the number of the boards. -/
theorem Gallery.Turns.index_lt (turns : g.Turns g')
    (below : g.index = 0 ∨ g.index < g.exhibit.boards.length) :
    g'.index = 0 ∨ g'.index < g'.exhibit.boards.length := by
  cases turns with
  | stay | openMenu => exact below
  | next =>
    unfold Gallery.next
    split
    · next room => exact .inr room
    · exact below
  | previous =>
    show g.index - 1 = 0 ∨ g.index - 1 < g.exhibit.boards.length
    omega

/-- The session holds what it showed last, at the number of one of its boards; all that it showed
comes from the settings and the sudoku that it started with. -/
structure Keeps (start : Session) (shows : List Exhibit) (s : Session) : Prop where
  settings : s.settings = start.settings
  sudoku : s.sudoku = start.sudoku
  exhibit : s.gallery.exhibit = shows.head?.getD {}
  board : s.gallery.mode = .board → shows ≠ []
  index : s.gallery.index = 0 ∨ s.gallery.index < s.gallery.exhibit.boards.length
  offered : ∀ e ∈ shows, ∃ action size, start.exhibitFor action = .ok (e, size)

namespace Keeps

/-- A session that has handled no input has shown nothing. -/
theorem opening {settings : Settings} {mouse : Point} {file : Option (List UInt8)}
    (opened : Session.opening settings mouse file = .ok start) :
    start.settings = settings ∧ Keeps start [] start := by
  obtain ⟨⟨⟩, -, opened⟩ := ok_of_bind opened
  obtain ⟨sudoku, -, opened⟩ := ok_of_bind opened
  cases opened
  exact ⟨rfl, rfl, rfl, rfl, nofun, .inl rfl, nofun⟩

/-- Every input keeps the session in step with what was shown. -/
theorem handle (keeps : Keeps start shows s) (done : (s.handle input).result = .ok s') :
    Keeps start ((s.shown? input).toList ++ shows) s' := by
  obtain ⟨settings, sudoku, ⟨e, action, size, shown, made, gallery⟩ | ⟨shown, turns⟩⟩ :=
    Session.handle_ok done
  · have made' : start.exhibitFor action = .ok (e, size) :=
      Session.exhibitFor_congr keeps.settings keeps.sudoku action ▸ made
    rw [shown]
    exact {
      settings := settings.trans keeps.settings
      sudoku := sudoku.trans keeps.sudoku
      exhibit := by rw [gallery]; rfl
      board := fun _ => List.cons_ne_nil e shows
      index := .inl (by rw [gallery]; rfl)
      offered := List.forall_mem_cons.2 ⟨⟨action, size, made'⟩, keeps.offered⟩ }
  · rw [shown]
    exact {
      settings := settings.trans keeps.settings
      sudoku := sudoku.trans keeps.sudoku
      exhibit := turns.exhibit_eq.trans keeps.exhibit
      board := fun board => keeps.board (turns.mode_eq board)
      index := turns.index_lt keeps.index
      offered := keeps.offered }

/-- A run of inputs keeps the session in step with what was shown. -/
theorem after {later : List Exhibit} (keeps : Keeps start shows s)
    (done : s.after inputs = .ok (later, s')) : Keeps start (later ++ shows) s' := by
  induction inputs generalizing s shows later with
  | nil =>
    cases done
    exact keeps
  | cons input inputs ih =>
    obtain ⟨next, handled, done⟩ := ok_of_bind done
    obtain ⟨⟨shows', last⟩, rest, done⟩ := ok_of_bind done
    cases done
    rw [List.append_assoc]
    exact ih (keeps.handle handled) rest

end Keeps

/-! ## Frames -/

namespace Session

/-- Inputs that follow others are handled after these. -/
theorem after_append {later : List Exhibit} {more : List Input} {last : Session}
    (done : s.after inputs = .ok (shows, s')) (done' : s'.after more = .ok (later, last)) :
    s.after (inputs ++ more) = .ok (later ++ shows, last) := by
  induction inputs generalizing s shows with
  | nil =>
    cases done
    rw [List.append_nil]
    exact done'
  | cons input inputs ih =>
    obtain ⟨next, handled, done⟩ := ok_of_bind done
    obtain ⟨⟨shows', last'⟩, rest, done⟩ := ok_of_bind done
    cases done
    rw [List.cons_append, after, handled]
    simp only [bind, Except.bind, ih rest, ← List.append_assoc]
    rfl

/-- Handling inputs shows something along the way. -/
theorem after_of_handleAll (done : (s.handleAll inputs).result = .ok s') :
    ∃ shows, s.after inputs = .ok (shows, s') := by
  induction inputs generalizing s with
  | nil =>
    cases done
    exact ⟨[], rfl⟩
  | cons input inputs ih =>
    obtain ⟨next, handled, done, -⟩ := of_bind done
    obtain ⟨shows, rest⟩ := ih done
    refine ⟨shows ++ (s.shown? input).toList, ?_⟩
    rw [after, handled]
    simp only [bind, Except.bind, rest]
    rfl

/-- What a session shows in its mode. -/
def picture (s : Session) : Paint Unit :=
  match s.gallery.mode with
  | .menu => drawMenu s.screen s.mouse
  | .board => s.drawExhibit

theorem draw_eq (s : Session) : s.draw = (s.picture >>= fun _ => .make [.flip]) := by
  unfold draw picture
  cases s.gallery.mode <;> rfl

theorem unfinished_picture : s.picture.Makes Unfinished := by
  unfold picture
  split
  · exact unfinished_drawMenu
  · refine .bind (.make (by simp)) fun _ => .bind unfinished_drawTopBar fun _ => ?_
    split
    · exact unfinished_drawBoard
    · exact .pure ()

/-- A finished frame is a whole picture. -/
theorem draw_of_finished (finished : .flip ∈ s.draw.calls) :
    s.picture.result = .ok () ∧ s.draw = ⟨s.picture.calls ++ [.flip], .ok ()⟩ := by
  rw [draw_eq] at *
  obtain ⟨⟨⟩, drawn, -⟩ := of_mem_bind finished fun mem => unfinished_picture _ mem rfl
  exact ⟨drawn, bind_of_ok drawn⟩

/-- A frame handles its inputs. -/
theorem after_of_frame (done : (s.frame inputs).result = .ok s') :
    ∃ shows, s.after inputs = .ok (shows, s') := by
  obtain ⟨next, handled, done, -⟩ := of_bind done
  obtain ⟨⟨⟩, -, done, -⟩ := of_bind done
  cases done
  exact after_of_handleAll handled

/-- A frame that was finished shows the picture of the session after its inputs. -/
theorem frame_of_finished {outcome : Except Fault Session}
    (frame : s.frame inputs = ⟨calls, outcome⟩) (finished : .flip ∈ calls) :
    ∃ shows s' modes, outcome = .ok s' ∧ s.after inputs = .ok (shows, s') ∧
      s'.picture.result = .ok () ∧ calls = modes ++ s'.picture.calls ++ [.flip] ∧
      ∀ call ∈ modes, ChangesWindow call := by
  have window := makes_handleAll s inputs
  have called : .flip ∈ (s.frame inputs).calls := by rwa [frame]
  obtain ⟨s', handled, mem⟩ := of_mem_bind called fun mem => nomatch window _ mem
  obtain ⟨shows, after⟩ := after_of_handleAll handled
  have finished' : .flip ∈ s'.draw.calls := by
    by_contra new
    obtain ⟨_, -, mem⟩ := of_mem_bind mem new
    cases mem
  obtain ⟨drawn, whole⟩ := draw_of_finished finished'
  rw [Session.frame, bind_of_ok handled, whole] at frame
  cases frame
  exact ⟨shows, s', _, rfl, after, drawn, by simp [ok_bind, pure_eq], window⟩

/-- A finished frame of a recording shows the picture of the session after the inputs so far. -/
theorem play_of_finished {frames : List (List Input)} {k : Nat}
    (frame : (s.play frames).calls[k]? = some calls) (finished : .flip ∈ calls) :
    ∃ shows s', s.after (frames.take (k + 1)).flatten = .ok (shows, s') ∧
      s'.picture.result = .ok () ∧ Framed s'.picture.calls calls := by
  induction frames generalizing s k with
  | nil =>
    have mem := List.mem_of_getElem? frame
    rw [List.mem_singleton.1 mem] at finished
    cases finished
  | cons inputs frames ih =>
    rw [List.take_succ_cons, List.flatten_cons]
    unfold play at frame
    split at frame
    · next first fault broken =>
      have same := List.mem_singleton.1 (List.mem_of_getElem? frame)
      obtain ⟨_, _, _, outcome, -⟩ := frame_of_finished broken (same ▸ finished)
      cases outcome
    · next first next done =>
      have here (finished : .flip ∈ first) := frame_of_finished done finished
      split at frame
      · cases k with
        | zero =>
          cases frame
          obtain ⟨shows, _, modes, ⟨⟩, after, drawn, rfl, window⟩ := here finished
          refine ⟨shows, next, ?_, drawn, modes, [], by simp, window, .inl rfl⟩
          simpa using after
        | succ k =>
          have ends : (s.frame inputs).result = .ok next := by rw [done]
          obtain ⟨shows, begun⟩ := after_of_frame ends
          obtain ⟨later, last, rest, shown⟩ := ih frame
          exact ⟨later ++ shows, last, after_append begun rest, shown⟩
      · cases k with
        | zero =>
          cases frame
          have finished : .flip ∈ first := by simpa using finished
          obtain ⟨shows, _, modes, ⟨⟩, after, drawn, rfl, window⟩ := here finished
          refine ⟨shows, next, ?_, drawn, modes, [.stop], by simp, window, .inr rfl⟩
          simpa using after
        | succ k => cases frame

end Session

end DancingLinks.Viewer
