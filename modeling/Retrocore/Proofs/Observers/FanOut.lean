import Retrocore.Ports
import Retrocore.Proofs.Compatible.Overheard
import Retrocore.Proofs.Operations

/-!
# Requests and the observers that hear them

A request goes through the row of observers from the first to the last, and no further than to
the first that refuses it. `Heard` is that as a relation, for inputs and outputs alike: how many
observers hear the request, what they become, and what they reply. Those that hear it are the
first of the row, each hears it once, and the others are left as they were.

`fan_out` says of `notifyIn` and `notifyOut` that they are such a passage and what they answer,
and what this makes of a machine's ports: an input reads the first value supplied, or what was
last latched for its port, and the last value put out to a port is known whether or not it was
refused.
-/

namespace Retrocore

namespace Observer

variable {δ α : Type}

/-- A request goes through a row of observers. `hear` is what one of them makes of it. -/
inductive Heard (hear : δ → δ × Except Fault α) :
    List δ → Nat → List δ → Except Fault (List α) → Prop
  /-- Nobody refuses it: all have heard it once, and these are their replies in order. -/
  | byAll {ds : List δ} {replies : List α}
      (hheeded : ds.map (fun d => (hear d).2) = replies.map .ok) :
      Heard hear ds ds.length (ds.map fun d => (hear d).1) (.ok replies)
  /-- The first to refuse it is the last to hear it. -/
  | upTo {before after : List δ} {d : δ} {replies : List α} {fault : Fault}
      (hheeded : before.map (fun d => (hear d).2) = replies.map .ok)
      (hrefused : (hear d).2 = .error fault) :
      Heard hear (before ++ d :: after) (before.length + 1)
        (before.map (fun d => (hear d).1) ++ (hear d).1 :: after) (.error fault)

namespace Heard

variable {hear : δ → δ × Except Fault α} {d : δ} {ds ds' : List δ} {called : Nat}

/-- Without observers nobody is asked. -/
theorem nil : Heard hear [] 0 [] (.ok []) := .byAll rfl

/-- The first that fails is the last that is asked. -/
theorem refused {d' : δ} {fault : Fault} (h : hear d = (d', .error fault)) (ds : List δ) :
    Heard hear (d :: ds) 1 (d' :: ds) (.error fault) := by
  have hnobody : ([] : List δ).map (fun d => (hear d).2) = ([] : List α).map .ok := rfl
  have hfirst : (hear d).1 = d' := by rw [h]
  subst hfirst
  exact .upTo hnobody (by rw [h])

/-- Behind one that does not, the others are asked in turn. -/
theorem heeded {d' : δ} {a : α} {outcome : Except Fault (List α)} (h : hear d = (d', .ok a))
    (hrest : Heard hear ds called ds' outcome) :
    Heard hear (d :: ds) (called + 1) (d' :: ds') (outcome.map (a :: ·)) := by
  have hfirst : (hear d).1 = d' := by rw [h]
  have hreply : (hear d).2 = .ok a := by rw [h]
  subst hfirst
  cases hrest with
  | @byAll _ replies hheeded =>
    have hall : (d :: ds).map (fun d => (hear d).2) = (a :: replies).map .ok := by
      rw [List.map_cons, List.map_cons, hheeded, hreply]
    exact .byAll hall
  | @upTo before after e replies fault hheeded hrefused =>
    have hall : (d :: before).map (fun d => (hear d).2) = (a :: replies).map .ok := by
      rw [List.map_cons, List.map_cons, hheeded, hreply]
    show Heard hear ((d :: before) ++ e :: after) ((d :: before).length + 1)
      ((d :: before).map (fun d => (hear d).1) ++ (hear e).1 :: after) (.error fault)
    exact .upTo hall hrefused

/-- Observers that can be told from others only by what the request does not touch take the same
part in it. -/
theorem map {ε : Type} {hear' : ε → ε × Except Fault α} {es es' : List ε}
    {outcome : Except Fault (List α)} (g : ε → δ)
    (hg : ∀ e, hear (g e) = (g (hear' e).1, (hear' e).2))
    (h : Heard hear' es called es' outcome) :
    Heard hear (es.map g) called (es'.map g) outcome := by
  have hstate : ∀ es : List ε, (es.map fun e => (hear' e).1).map g =
      (es.map g).map fun d => (hear d).1 := by
    intro es
    rw [List.map_map, List.map_map]
    exact List.map_congr_left fun e _ => congrArg Prod.fst (hg e).symm
  have hreply : ∀ es : List ε, (es.map g).map (fun d => (hear d).2) =
      es.map fun e => (hear' e).2 := by
    intro es
    rw [List.map_map]
    exact List.map_congr_left fun e _ => congrArg Prod.snd (hg e)
  cases h with
  | byAll hheeded =>
    rw [hstate, ← List.length_map g]
    exact .byAll ((hreply es).trans hheeded)
  | @upTo before after e replies fault hheeded hrefused =>
    have hd : (hear (g e)).2 = .error fault := by rw [hg, hrefused]
    have hlast : g (hear' e).1 = (hear (g e)).1 := congrArg Prod.fst (hg e).symm
    rw [List.map_append, List.map_append, List.map_cons, List.map_cons, hstate, hlast,
      ← List.length_map g]
    exact .upTo ((hreply before).trans hheeded) hd

/-- What an observer notes of a request shows who has heard it: the first of the row have, once
each, and the others have not. -/
theorem noted {ρ : Type} {note : ρ} {outcome : Except Fault (List α)}
    (h : Heard hear ds called ds' outcome) (heard : δ → List ρ)
    (hnote : ∀ d, heard (hear d).1 = note :: heard d) (hnone : ∀ d ∈ ds, heard d = []) :
    ds'.map heard = List.replicate called [note] ++ List.replicate (ds.length - called) [] := by
  have honce : ∀ es : List δ, (∀ d ∈ es, heard d = []) →
      (es.map fun d => (hear d).1).map heard = List.replicate es.length [note] := by
    intro es hes
    rw [List.map_map, ← List.map_const']
    exact List.map_congr_left fun d hd => (hnote d).trans (congrArg _ (hes d hd))
  have hnever : ∀ es : List δ, (∀ d ∈ es, heard d = []) →
      es.map heard = List.replicate es.length [] := by
    intro es hes
    rw [← List.map_const']
    exact List.map_congr_left hes
  cases h with
  | byAll => rw [honce _ hnone, Nat.sub_self, List.replicate_zero, List.append_nil]
  | @upTo before after d replies fault =>
    have hbefore : ∀ e ∈ before, heard e = [] := fun e he => hnone e (List.mem_append_left _ he)
    have hd : heard d = [] := hnone d (List.mem_append_right _ List.mem_cons_self)
    have hafter : ∀ e ∈ after, heard e = [] := fun e he =>
      hnone e (List.mem_append_right _ (List.mem_cons_of_mem _ he))
    have hlength : (before ++ d :: after).length - (before.length + 1) = after.length := by
      rw [List.length_append, List.length_cons]
      omega
    rw [List.map_append, List.map_cons, honce _ hbefore, hnote, hd, hnever _ hafter, hlength,
      List.replicate_succ', List.append_assoc]
    rfl

end Heard

variable {π ν : Type} [Observer δ π ν]

/-- An input is answered by the first observer that has a value, after all have been
asked. -/
theorem heard_notifyIn (ds : List δ) (port : π) :
    ∃ called outcome, Heard (onIn · port) ds called (notifyIn ds port).1 outcome ∧
      (notifyIn ds port).2 = outcome.map fun replies => replies.findSome? id := by
  induction ds with
  | nil => exact ⟨0, .ok [], .nil, rfl⟩
  | cons d ds ih =>
    obtain ⟨called, outcome, hheard, hanswer⟩ := ih
    rcases hd : onIn d port with ⟨d', fault | answer⟩
    · refine ⟨1, .error fault, ?_, ?_⟩
      · simp only [notifyIn, hd]
        exact .refused hd ds
      · simp only [notifyIn, hd]
        rfl
    · refine ⟨called + 1, outcome.map (answer :: ·), ?_, ?_⟩
      · simp only [notifyIn, hd]
        exact hheard.heeded hd
      · simp only [notifyIn, hd, hanswer]
        cases outcome with
        | error fault => rfl
        | ok replies => cases answer <;> rfl

/-- An output is told to all of them. -/
theorem heard_notifyOut (ds : List δ) (port : π) (v : ν) :
    ∃ called outcome, Heard (onOut · port v) ds called (notifyOut ds port v).1 outcome ∧
      (notifyOut ds port v).2 = outcome.map fun _ => () := by
  induction ds with
  | nil => exact ⟨0, .ok [], .nil, rfl⟩
  | cons d ds ih =>
    obtain ⟨called, outcome, hheard, hresult⟩ := ih
    rcases hd : onOut d port v with ⟨d', fault | ⟨⟩⟩
    · refine ⟨1, .error fault, ?_, ?_⟩
      · simp only [notifyOut, hd]
        exact .refused hd ds
      · simp only [notifyOut, hd]
        rfl
    · refine ⟨called + 1, outcome.map (() :: ·), ?_, ?_⟩
      · simp only [notifyOut, hd]
        exact hheard.heeded hd
      · simp only [notifyOut, hd, hresult]
        cases outcome <;> rfl

end Observer

/-! ## Ports -/

namespace Ports

variable {δ : Type}

/-- What is done with ports. -/
inductive Use (δ : Type) where
  /-- A value is latched for later inputs from a port. -/
  | latch (port v : Byte)
  | connect (observer : δ)
  | read (port : Byte)
  | write (port v : Byte)

namespace Use

/-- The value that is latched for inputs from the port. -/
def latched? (port : Byte) : Use δ → Option Byte
  | latch q v => if q = port then some v else none
  | connect _ | read _ | write .. => none

/-- The value that is put out to the port. -/
def written? (port : Byte) : Use δ → Option Byte
  | write q v => if q = port then some v else none
  | latch .. | connect _ | read _ => none

end Use

theorem get_set (values : Vector Byte 256) (p q v : Byte) :
    (values.set p.toNat v p.toNat_lt).get ⟨q.toNat, q.toNat_lt⟩ =
      (if p = q then some v else none).getD (values.get ⟨q.toNat, q.toNat_lt⟩) := by
  have hq : q.toNat < 256 := q.toNat_lt
  show (values.set p.toNat v p.toNat_lt)[q.toNat] = _
  rw [Vector.getElem_set]
  by_cases hsame : p = q
  · rw [if_pos (congrArg UInt8.toNat hsame), if_pos hsame]
    rfl
  · rw [if_neg fun h => hsame (UInt8.toNat_inj.mp h), if_neg hsame]
    rfl

/-- Writing down what they hear does not change the observers. -/
theorem observer_overheard (p : Ports δ) :
    p.overheard.observers.map Overheard.observer = p.observers :=
  congrArg Ports.observers p.unheard_overheard

theorem heard_overheard (p : Ports δ) : ∀ d ∈ p.overheard.observers, d.heard = [] := by
  intro d hd
  obtain ⟨_, _, rfl⟩ := List.mem_map.mp hd
  rfl

/-- What overheard observers make of a request shows what the observers themselves make of it,
and who has heard it. -/
theorem heard_of_overheard {α : Type} (p : Ports δ) (hear : δ → δ × Except Fault α)
    {hear' : Overheard δ → Overheard δ × Except Fault α} {note : Request Byte Byte} {called : Nat}
    {row : List (Overheard δ)} {outcome : Except Fault (List α)}
    (hsame : ∀ d, hear d.observer = ((hear' d).1.observer, (hear' d).2))
    (hnote : ∀ d, (hear' d).1.heard = note :: d.heard)
    (h : Observer.Heard hear' p.overheard.observers called row outcome) :
    Observer.Heard hear p.observers called (row.map Overheard.observer) outcome ∧
      row.map Overheard.heard =
        List.replicate called [note] ++ List.replicate (p.observers.length - called) [] := by
  have hplain := h.map Overheard.observer hsame
  have hnoted := h.noted Overheard.heard hnote p.heard_overheard
  rw [observer_overheard] at hplain
  rw [← List.length_map Overheard.observer, observer_overheard] at hnoted
  exact ⟨hplain, hnoted⟩

variable [Observer δ Byte Byte]

instance : Operable (Ports δ) (Use δ) where
  perform p
    | .latch port v => p.input port v
    | .connect observer => p.connect observer
    | .read port => (p.read port).1
    | .write port v => (p.write port v).1

/-- The latest value supplied for a port is the one that it has latched. -/
theorem latched_after (uses : List (Use δ)) (p : Ports δ) (port : Byte) :
    (Operable.after p uses).latched port =
      (uses.filterMap (Use.latched? port)).getLast?.getD (p.latched port) := by
  refine Operable.after_lastSet (f := fun p : Ports δ => p.latched port) (fun p u => ?_) uses p
  cases u with
  | latch q v => exact get_set p.inputs q port v
  | connect observer => rfl
  | read q => rfl
  | write q v => rfl

/-- The latest value put out at a port is the one that it shows. -/
theorem lastOut_after (uses : List (Use δ)) (p : Ports δ) (port : Byte) :
    (Operable.after p uses).lastOut port =
      (uses.filterMap (Use.written? port)).getLast?.getD (p.lastOut port) := by
  refine Operable.after_lastSet (f := fun p : Ports δ => p.lastOut port) (fun p u => ?_) uses p
  cases u with
  | latch q v => rfl
  | connect observer => rfl
  | read q => rfl
  | write q v => exact get_set p.outputs q port v

/-- An input request goes through the observers, each of those that hear it noting one request,
and reads the first value supplied or what is latched for the port. -/
structure Reads (p : Ports δ) (port : Byte) (called : Nat)
    (outcome : Except Fault (List (Option Byte))) : Prop where
  heard : Observer.Heard (Observer.onIn · port) p.observers called (p.read port).1.observers outcome
  noted : (p.overheard.read port).1.heard =
    List.replicate called [.inp port] ++ List.replicate (p.observers.length - called) []
  value : (p.read port).2 =
    outcome.map fun replies => (replies.findSome? id).getD (p.latched port)
  kept : (p.read port).1 = { p with observers := (p.read port).1.observers }

/-- So does a value put out, which is kept whether or not it is refused. -/
structure Writes (p : Ports δ) (port v : Byte) (called : Nat)
    (outcome : Except Fault (List Unit)) : Prop where
  heard : Observer.Heard (Observer.onOut · port v) p.observers called
    (p.write port v).1.observers outcome
  noted : (p.overheard.write port v).1.heard =
    List.replicate called [.out port v] ++ List.replicate (p.observers.length - called) []
  result : (p.write port v).2 = outcome.map fun _ => ()

/-- Every input goes round the observers in this way. -/
theorem reads (p : Ports δ) (port : Byte) : ∃ called outcome, p.Reads port called outcome := by
  obtain ⟨called, outcome, hheard, hanswer⟩ :=
    Observer.heard_notifyIn p.overheard.observers port
  obtain ⟨hobservers, hsame⟩ := Overheard.notifyIn_unheard p.overheard.observers port
  obtain ⟨hplain, hnoted⟩ :=
    p.heard_of_overheard (Observer.onIn · port) (fun _ => rfl) (fun _ => rfl) hheard
  rw [observer_overheard] at hobservers hsame
  rw [hobservers] at hplain
  refine ⟨called, outcome, hplain, hnoted, ?_, rfl⟩
  show (Observer.notifyIn p.observers port).2.map _ = _
  rw [← hsame, hanswer]
  cases outcome <;> rfl

theorem writes (p : Ports δ) (port v : Byte) :
    ∃ called outcome, p.Writes port v called outcome := by
  obtain ⟨called, outcome, hheard, hresult⟩ :=
    Observer.heard_notifyOut p.overheard.observers port v
  obtain ⟨hobservers, hsame⟩ := Overheard.notifyOut_unheard p.overheard.observers port v
  obtain ⟨hplain, hnoted⟩ :=
    p.heard_of_overheard (Observer.onOut · port v) (fun _ => rfl) (fun _ => rfl) hheard
  rw [observer_overheard] at hobservers hsame
  rw [hobservers] at hplain
  exact ⟨called, outcome, hplain, hnoted, hsame.symm.trans hresult⟩

end Ports

/-- **Requests fan out** to the observers in their order, each of which hears a request at most
once, up to the first that refuses it; then its refusal is the result. If nobody refuses, all
have heard it, and an input is answered with the first value supplied, if there is one. Of ports
this means that an input reads that value, or what was last latched for its port, and touches no
latch, and that the last value put out to a port is what was last written to it, refused or not. -/
theorem fan_out {π ν δ ε : Type} [Observer δ π ν] [Observer ε Byte Byte] :
    (∀ (ds : List δ) (port : π), ∃ called outcome,
      Observer.Heard (Observer.onIn · port) ds called (Observer.notifyIn ds port).1 outcome ∧
      (Observer.notifyIn ds port).2 = outcome.map fun replies => replies.findSome? id) ∧
    (∀ (ds : List δ) (port : π) (v : ν), ∃ called outcome,
      Observer.Heard (Observer.onOut · port v) ds called (Observer.notifyOut ds port v).1 outcome ∧
      (Observer.notifyOut ds port v).2 = outcome.map fun _ => ()) ∧
    (∀ (p : Ports ε) (port : Byte), (∃ called outcome, p.Reads port called outcome) ∧
      ∀ v, ∃ called outcome, p.Writes port v called outcome) ∧
    ∀ (uses : List (Ports.Use ε)) (port : Byte),
      (Operable.after ({} : Ports ε) uses).latched port =
        (uses.filterMap (Ports.Use.latched? port)).getLast?.getD 0 ∧
      (Operable.after ({} : Ports ε) uses).lastOut port =
        (uses.filterMap (Ports.Use.written? port)).getLast?.getD 0 := by
  refine ⟨Observer.heard_notifyIn, Observer.heard_notifyOut, fun p port => ?_, fun uses port => ?_⟩
  · exact ⟨p.reads port, p.writes port⟩
  · have hzero (i : Fin 256) : (Vector.replicate 256 (0 : Byte)).get i = 0 :=
      Vector.getElem_replicate i.isLt
    have hlatched : ({} : Ports ε).latched port = 0 := hzero _
    have hlast : ({} : Ports ε).lastOut port = 0 := hzero _
    rw [Ports.latched_after, Ports.lastOut_after, hlatched, hlast]
    exact ⟨rfl, rfl⟩

end Retrocore
