import Formula.Proofs.Head
import Mathlib.Data.List.Chain

/-!
# Contracts of routines

A `Contract` says for every routine what it asks of the place where it is called, and what holds
of the place where it leaves the head and of its reply. `Code.Meets` is what is left to show for
the code of a routine, read from its front : every move is proper, every call is made where the
contract of the called routine allows it, and the reply is right. What a called routine does is
known from its contract alone, so the code of each routine is looked at just once.

A call also has to come closer to the end of the text than the call it is made in, or to stay at
its place and be of a routine of a lower rank. So there is no infinite descent into calls : code
that meets a contract has a run (`Contract.Holds.exists_runs`), and its run, with every call on
the way, is as the contract says (`Runs.kept`).
-/

namespace Formula

/-- The move does what it is for : there is a character to advance past, a level to enter, or a
level to leave. -/
def Move.Proper (text : List Char) (h : Head) : Move → Prop
  | .advance => h.position < text.length
  | .enter => h.depth < maxDepth
  | .leave => 0 < h.depth

namespace Head

/-- A proper move leads from the one head to the other. -/
def Step (text : List Char) (h h' : Head) : Prop :=
  ∃ step : Move, step.Proper text h ∧ h' = h.after text step

/-- Where there is a character, advancing takes it. -/
theorem after_advance {text : List Char} {h : Head} (hlt : h.position < text.length) :
    h.after text .advance = ⟨h.position + 1, h.depth⟩ :=
  if_pos hlt

/-- How many characters are left. -/
def remaining (text : List Char) (h : Head) : Nat :=
  text.length - h.position

end Head

namespace Routine

/-- The order in which routines call one another at one place. -/
def rank : Routine → Nat
  | scan => 0
  | rest _ _ => 0
  | optional => 1
  | term => 2
  | chain .power => 3
  | chain .product => 4
  | chain .sum => 5
  | formula => 6

/-- The call of `r'` at `h'` is closer to the end of all calls than that of `r` at `h`. -/
def Descends (text : List Char) (r : Routine) (h : Head) (r' : Routine) (h' : Head) : Prop :=
  h'.remaining text < h.remaining text ∨
    h'.remaining text = h.remaining text ∧ r'.rank < r.rank

/-- A call from a later place is closer to the end, whatever routine is called. -/
theorem descends_of_lt {text : List Char} {r r' : Routine} {h h' : Head}
    (hlt : h.position < h'.position) (hle : h'.position ≤ text.length) :
    r.Descends text h r' h' :=
  .inl (by unfold Head.remaining; omega)

end Routine

/-- What a routine asks of the head, and what holds of the head it leaves and of its reply. -/
structure Contract where
  requires : Routine → Head → Prop
  ensures : Routine → Head → Head → Reply → Prop

variable {text : List Char} {C : Contract} {r : Routine} {entry h : Head} {code : Code}
  {path : List Head} {reply : Reply} {calls : List Visit}

/-- From where the head is the code comes to what the routine `r`, called at `entry`, has to
ensure, if the routines that are called keep the contract. -/
def Code.Meets (text : List Char) (C : Contract) (r : Routine) (entry : Head) :
    Code → Head → Prop
  | .done reply, h => C.ensures r entry h reply
  | .move step next, h =>
    step.Proper text h ∧ (next (h.after text step)).Meets text C r entry (h.after text step)
  | .call routine next, h =>
    C.requires routine h ∧ r.Descends text entry routine h ∧
      ∀ h' reply, C.ensures routine h h' reply → (next h' reply).Meets text C r entry h'

/-- The code of every routine meets the contract. -/
def Contract.Holds (text : List Char) (C : Contract) : Prop :=
  ∀ r h, C.requires r h → (r.code text h).Meets text C r h h

/-- The call is as the contract says, the head makes proper moves, and the calls made in it are
closer to the end. -/
structure Visit.Keeps (text : List Char) (C : Contract) (v : Visit) : Prop where
  requires : C.requires v.routine v.entry
  ensures : C.ensures v.routine v.entry v.exit v.reply
  moves : List.IsChain (Head.Step text) (v.entry :: v.path)
  descends : ∀ w ∈ v.calls, v.routine.Descends text v.entry w.routine w.entry

/-! ## Pieces of code -/

namespace Code

variable {next : Head → Code}

/-- Code that takes a character meets the contract if the code behind it does. -/
theorem meets_advance (hlt : h.position < text.length)
    (hnext : (next ⟨h.position + 1, h.depth⟩).Meets text C r entry ⟨h.position + 1, h.depth⟩) :
    (Code.move .advance next).Meets text C r entry h := by
  refine ⟨hlt, ?_⟩
  rw [Head.after_advance hlt]
  exact hnext

/-- The same for code that takes a number of characters. -/
theorem meets_skip : ∀ {count : Nat} {h : Head}, h.position + count ≤ text.length →
    (next ⟨h.position + count, h.depth⟩).Meets text C r entry ⟨h.position + count, h.depth⟩ →
      (skip next count h).Meets text C r entry h
  | 0, _, _, hnext => hnext
  | count + 1, h, hle, hnext => by
    rw [← Nat.add_assoc, Nat.add_right_comm] at hle hnext
    exact meets_advance (by omega) (meets_skip hle hnext)

/-- Code that hands on a tree, unless it is too high, meets the contract if it does so in both
cases. -/
theorem meets_bounded {e : Expr} {next : Expr → Code}
    (hnext : e.height ≤ maxDepth → (next e).Meets text C r entry h)
    (hhigh : maxDepth < e.height → C.ensures r entry h (.error (.tooDeep h.position))) :
    (bounded h e next).Meets text C r entry h := by
  unfold bounded
  split
  next hle => exact hnext hle
  next hgt => exact hhigh (Nat.not_le.mp hgt)

end Code

/-! ## Runs -/

/-- A path that goes on from where another one ends is a chain behind it. -/
theorem isChain_cons_append {R : Head → Head → Prop} {path' : List Head}
    (hpath : List.IsChain R (h :: path)) (hpath' : List.IsChain R (path.getLastD h :: path')) :
    List.IsChain R (h :: (path ++ path')) := by
  obtain ⟨hborder, hpath'⟩ := List.isChain_cons.mp hpath'
  refine List.IsChain.append hpath hpath' ?_
  rw [List.getLast?_cons, ← List.getLastD_eq_getLast?]
  rintro _ ⟨⟩
  exact hborder

/-- A run of code that meets a contract ends as the routine has to, by proper moves, and every
call on the way is as the contract says. -/
theorem Runs.kept (hC : C.Holds text) (hrun : Runs text h code path reply calls) :
    ∀ {r : Routine} {entry : Head}, code.Meets text C r entry h →
      C.ensures r entry (path.getLastD h) reply ∧ List.IsChain (Head.Step text) (h :: path) ∧
        ∀ v ∈ calls, r.Descends text entry v.routine v.entry ∧
          ∀ w, v.Makes w → w.Keeps text C := by
  induction hrun with
  | done => exact fun hmeets => ⟨hmeets, .singleton _, fun _ hv => nomatch hv⟩
  | move _ ih =>
    intro r entry hmeets
    obtain ⟨hproper, hnext⟩ := hmeets
    obtain ⟨hensures, hchain, hcalls⟩ := ih hnext
    exact ⟨by rwa [List.getLastD_cons], .cons_cons ⟨_, hproper, rfl⟩ hchain, hcalls⟩
  | @call h routine next path path' reply reply' calls calls' _ _ ihcall ihnext =>
    intro r entry hmeets
    obtain ⟨hrequires, hdescends, hnext⟩ := hmeets
    obtain ⟨hensures, hchain, hcalls⟩ := ihcall (hC routine h hrequires)
    obtain ⟨hensures', hchain', hcalls'⟩ := ihnext (hnext _ _ hensures)
    have hkeeps : (⟨routine, h, path, reply, calls⟩ : Visit).Keeps text C :=
      ⟨hrequires, hensures, hchain, fun w hw => (hcalls w hw).1⟩
    have hlast : (path ++ path').getLastD h = path'.getLastD (path.getLastD h) := by
      simp only [List.getLastD_eq_getLast?, List.getLast?_append, Option.getD_or]
    refine ⟨by rwa [hlast], isChain_cons_append hchain hchain', ?_⟩
    rintro v (_ | ⟨_, hv⟩)
    · refine ⟨hdescends, fun w hw => ?_⟩
      cases hw with
      | self => exact hkeeps
      | call hu hw => exact (hcalls _ hu).2 w hw
    · exact hcalls' v hv

/-- What happens is as a contract says that holds, and so is every call made in it. -/
theorem Visit.Happens.keeps {v : Visit} (hv : v.Happens text) (hC : C.Holds text)
    (hrequires : C.requires v.routine v.entry) {w : Visit} (hw : v.Makes w) :
    w.Keeps text C := by
  obtain ⟨hensures, hchain, hcalls⟩ := Runs.kept hC hv (hC _ _ hrequires)
  cases hw with
  | self => exact ⟨hrequires, hensures, hchain, fun w hw => (hcalls w hw).1⟩
  | call hu hw => exact (hcalls _ hu).2 w hw

/-- Code that meets a contract has a run if the calls that it may make have. -/
theorem Code.Meets.exists_runs (hC : C.Holds text)
    (hcalls : ∀ r' h', r.Descends text entry r' h' → C.requires r' h' →
      ∃ path reply calls, Runs text h' (r'.code text h') path reply calls)
    (hmeets : code.Meets text C r entry h) :
    ∃ path reply calls, Runs text h code path reply calls := by
  induction code generalizing h with
  | done reply => exact ⟨_, _, _, .done⟩
  | move step next ih =>
    obtain ⟨path, reply, calls, hrun⟩ := ih _ hmeets.2
    exact ⟨_, _, _, .move hrun⟩
  | call routine next ih =>
    obtain ⟨hrequires, hdescends, hnext⟩ := hmeets
    obtain ⟨path, reply, calls, hcall⟩ := hcalls _ _ hdescends hrequires
    have hensures := (hcall.kept hC (hC _ _ hrequires)).1
    obtain ⟨path', reply', calls', hrun⟩ := ih _ _ (hnext _ _ hensures)
    exact ⟨_, _, _, .call hcall hrun⟩

/-- Under a contract that holds every call ends. -/
theorem Contract.Holds.exists_runs (hC : C.Holds text) (r : Routine) (h : Head)
    (hrequires : C.requires r h) :
    ∃ path reply calls, Runs text h (r.code text h) path reply calls :=
  (hC r h hrequires).exists_runs hC fun r' h' _hdescends hrequires' =>
    hC.exists_runs r' h' hrequires'
termination_by (h.remaining text, r.rank)
decreasing_by exact Prod.lex_def.mpr _hdescends

end Formula
