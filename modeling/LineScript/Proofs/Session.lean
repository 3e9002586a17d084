import LineScript.Proofs.Parser.Learns
import LineScript.Proofs.Scope
import LineScript.Session
set_option autoImplicit false

/-!
The two halves of a session keep in step. A reading that fails may teach the parser names that the machine
does not have yet; but names are only ever added at the end, so the machine's tables stay behind the
parser's, and the next code that is read brings them level again, in contents and in order.
-/

namespace LineScript

namespace Table

variable {α : Type} {t u : Table α}

/-- The names of the one table begin those of the other, in which no name stands twice. -/
def Behind (t u : Table α) : Prop := t.keys <+: u.keys ∧ u.keys.Nodup

theorem Behind.refl (h : t.Behind u) : u.Behind u := ⟨List.prefix_refl _, h.2⟩

theorem Behind.insert (h : t.Behind u) (name : String) (v : α) : t.Behind (u.insert name v) := by
  obtain ⟨hp, hn⟩ := h
  rw [Behind,keys_insert]
  split
  · exact ⟨hp, hn⟩
  · next hname =>
    refine ⟨hp.trans (List.prefix_append _ _), ?_⟩
    exact List.nodup_append.2 ⟨hn, by simp, by rintro k hk _ hm rfl; simp_all⟩

/-- Entries of other names go past the first one. -/
theorem merge_cons {name : String} (v : α) (h : name ∉ u.keys) :
    merge ((name, v) :: t) u = (name, v) :: merge t u := by
  induction u generalizing t with
  | nil => rfl
  | cons e u ih =>
    obtain ⟨hne, hu⟩ : name ≠ e.1 ∧ name ∉ keys u := by simpa [keys] using h
    have hinsert : Table.insert ((name, v) :: t) e.1 e.2 = (name, v) :: t.insert e.1 e.2 := by
      simp [Table.insert,hne]
    change merge (Table.insert ((name, v) :: t) e.1 e.2) u = (name, v) :: merge (t.insert e.1 e.2) u
    rw [hinsert,ih hu]

/-- A table that is behind another one is brought level with it. -/
theorem Behind.merge_eq (h : t.Behind u) : t.merge u = u := by
  obtain ⟨hp, hn⟩ := h
  induction u generalizing t with
  | nil =>
    obtain rfl : t = [] := by simpa [keys] using hp
    rfl
  | cons e u ih =>
    obtain ⟨hfresh, hu⟩ : e.1 ∉ keys u ∧ (keys u).Nodup := by simpa [keys] using hn
    cases t with
    | nil =>
      change merge [(e.1, e.2)] u = e :: u
      rw [merge_cons e.2 hfresh,ih (t := []) List.nil_prefix hu]
    | cons f t =>
      obtain ⟨hname, ht⟩ : f.1 = e.1 ∧ keys t <+: keys u := by simpa [keys] using hp
      have hinsert : Table.insert (f :: t) e.1 e.2 = (e.1, e.2) :: t := by
        simp [Table.insert,hname]
      change merge (Table.insert (f :: t) e.1 e.2) u = e :: u
      rw [hinsert,merge_cons e.2 hfresh,ih ht hu]

end Table

namespace Declarations

structure Behind (d e : Declarations) : Prop where
  classes : d.classes.Behind e.classes
  methods : d.methods.Behind e.methods
  containers : d.containers.Behind e.containers

variable {d e : Declarations}

theorem behind_empty : Behind .empty .empty := by
  constructor <;> exact ⟨List.prefix_refl _, List.nodup_nil⟩

theorem Behind.refl (h : d.Behind e) : e.Behind e := ⟨h.classes.refl, h.methods.refl, h.containers.refl⟩

theorem Behind.merge_eq (h : d.Behind e) : d.merge e = e := by
  rw [merge,h.classes.merge_eq,h.methods.merge_eq,h.containers.merge_eq]

/-- Whatever a parser learns, what was behind it stays behind it. -/
theorem Behind.learns {p q : Parser} (h : d.Behind p.declared) (hl : p.Learns q) :
    d.Behind q.declared :=
  hl.declared_induction (fun _ c hd => { hd with classes := hd.classes.insert c.name c })
    (fun _ m hd => { hd with methods := hd.methods.insert m.name m })
    (fun _ c hd => { hd with containers := hd.containers.insert c.name c }) h

end Declarations

namespace Machine

/-- Running a program adds its declarations and no others. -/
theorem declared_of_runProgram {m m' : Machine} {fuel : Nat} {p : Program} {report : Report}
    (h : m.runProgram fuel p = some (report, m')) : m'.declared = m.declared.merge p.declared := by
  obtain ⟨⟨v, n⟩, hn, he⟩ := Option.map_eq_some_iff.1 h
  have ho := Outcome.finished?_eq_some_iff.1 hn
  obtain ⟨-, rfl⟩ := Prod.mk.inj he
  exact ((executeIsolated_follows fuel _ p.lines).ran (.inl ⟨v, ho⟩)).declared

end Machine

/-- What can be done to a session. -/
inductive Operation where
  | evaluate (code : String)
  | run (code : String)
  | define (name : String) (v : Value)
  | clear

def SessionError.isParse : SessionError → Bool
  | parse _ => true
  | _ => false

namespace Session

/-- Was the code of an operation that gave this result read to its end? -/
def wasRead {α : Type} : Except SessionError α → Bool
  | .error e => !e.isParse
  | .ok _ => true

/-- The session after an operation, and whether the operation has read code. -/
def perform (fuel : Nat) (s : Session) : Operation → Option (Session × Bool)
  | .evaluate code => (s.evaluate fuel code).map fun r => (r.2, wasRead r.1)
  | .run code => (s.run fuel code).map fun r => (r.2, wasRead r.1)
  | .define name v => some ((s.define name v).2, false)
  | .clear => some (s.clear, false)

/-- A session that was new and had operations done to it, whatever became of each. -/
inductive Used : Session → Prop where
  | new (config : Config) (host : Host) : Used (.new config host)
  | after {fuel : Nat} {s t : Session} {op : Operation} {read : Bool} :
    s.Used → s.perform fuel op = some (t, read) → t.Used

/-- The machine has what the parser knows, under the same names in the same order. -/
def InStep (s : Session) : Prop := s.machine.declared = s.parser.declared

/-- The machine has no name that the parser does not know, and has its names in the parser's order. -/
def Trails (s : Session) : Prop := s.machine.declared.Behind s.parser.declared

variable {s t : Session} {fuel : Nat} {code : String}

/-- Loading the program that was just read brings a machine that trails level with the parser. -/
theorem Trails.load {q : Parser} {program : Program} (h : s.Trails)
    (hp : s.parser.parseWith fuel code = some (q, .ok program)) :
    s.machine.declared.merge program.declared = q.declared ∧ q.declared.Behind q.declared := by
  obtain ⟨hl, hd⟩ := Parser.parseWith_learns hp
  have hbehind := Declarations.Behind.learns h hl
  rw [hd program rfl]
  exact ⟨hbehind.merge_eq, hbehind.refl⟩

/-- A parser and a machine that has the parser's declarations. -/
theorem level {q : Parser} {m : Machine} (hm : m.declared = q.declared)
    (hself : q.declared.Behind q.declared) : Trails ⟨q, m⟩ ∧ InStep ⟨q, m⟩ :=
  ⟨by rw [Trails,hm]; exact hself, hm⟩

theorem Trails.evaluate {r : Except SessionError Value} (h : s.Trails)
    (he : s.evaluate fuel code = some (r, t)) : t.Trails ∧ (wasRead r = true → t.InStep) := by
  unfold Session.evaluate at he
  rcases hp : s.parser.parseWith fuel code with _ | ⟨q, e | program⟩
  · simp [hp] at he
  · obtain ⟨rfl, rfl⟩ : .error (.parse e) = r ∧ { s with parser := q } = t := by simpa [hp] using he
    exact ⟨Declarations.Behind.learns h (Parser.parseWith_learns hp).1, nofun⟩
  · obtain ⟨hlevel, hself⟩ := h.load hp
    have hran := Machine.execute_follows fuel (s.machine.load program.declared) program.lines
    cases ho : (s.machine.load program.declared).execute fuel program.lines with
    | ok v m' =>
      obtain ⟨rfl, rfl⟩ : .ok v = r ∧ ⟨q, m'⟩ = t := by simpa [hp,ho] using he
      have hend := level ((hran.ran (.inl ⟨v, ho⟩)).declared.trans hlevel) hself
      exact ⟨hend.1, fun _ => hend.2⟩
    | error e m' =>
      obtain ⟨rfl, rfl⟩ : .error (.runtime e) = r ∧ ⟨q, m'⟩ = t := by simpa [hp,ho] using he
      have hend := level ((hran.ran (.inr ⟨e, ho⟩)).declared.trans hlevel) hself
      exact ⟨hend.1, fun _ => hend.2⟩
    | outOfFuel m' => simp [hp,ho] at he

theorem Trails.run {r : Except SessionError Report} (h : s.Trails)
    (hr : s.run fuel code = some (r, t)) : t.Trails ∧ (wasRead r = true → t.InStep) := by
  unfold Session.run at hr
  rcases hp : s.parser.parseWith fuel code with _ | ⟨q, e | program⟩
  · simp [hp] at hr
  · obtain ⟨rfl, rfl⟩ : .error (.parse e) = r ∧ { s with parser := q } = t := by simpa [hp] using hr
    exact ⟨Declarations.Behind.learns h (Parser.parseWith_learns hp).1, nofun⟩
  · obtain ⟨hlevel, hself⟩ := h.load hp
    rw [hp] at hr
    obtain ⟨⟨report, m'⟩, hm, he⟩ := Option.map_eq_some_iff.1 hr
    obtain ⟨rfl, rfl⟩ := Prod.mk.inj he
    have hend := level ((Machine.declared_of_runProgram hm).trans hlevel) hself
    exact ⟨hend.1, fun _ => hend.2⟩

theorem Trails.define (h : s.Trails) (name : String) (v : Value) : (s.define name v).2.Trails := by
  unfold Session.define
  split
  · exact h
  · exact h

/-- One operation keeps the machine behind the parser, and level with it if code was read. -/
theorem Trails.perform {op : Operation} {read : Bool} (h : s.Trails)
    (hp : s.perform fuel op = some (t, read)) : t.Trails ∧ (read = true → t.InStep) := by
  cases op with
  | evaluate code =>
    obtain ⟨⟨r, t'⟩, he, ht⟩ := Option.map_eq_some_iff.1 hp
    obtain ⟨rfl, rfl⟩ := Prod.mk.inj ht
    exact h.evaluate he
  | run code =>
    obtain ⟨⟨r, t'⟩, hr, ht⟩ := Option.map_eq_some_iff.1 hp
    obtain ⟨rfl, rfl⟩ := Prod.mk.inj ht
    exact h.run hr
  | define name v =>
    obtain ⟨rfl, rfl⟩ := Prod.mk.inj (Option.some.inj hp)
    exact ⟨h.define name v, nofun⟩
  | clear =>
    obtain ⟨rfl, rfl⟩ := Prod.mk.inj (Option.some.inj hp)
    exact ⟨h, nofun⟩

theorem Used.trails (h : s.Used) : s.Trails := by
  induction h with
  | new config host => exact Declarations.behind_empty
  | after _ hp ih => exact (ih.perform hp).1

theorem tables_in_step (s t : Session) (hs : s.Used) (fuel : Nat) (op : Operation)
    (hp : s.perform fuel op = some (t, true)) :
    t.machine.declared.classes = t.parser.declared.classes ∧
    t.machine.declared.methods = t.parser.declared.methods ∧
    t.machine.declared.containers = t.parser.declared.containers ∧
    ∀ name, t.machine.declared.typeOf? name = t.parser.declared.typeOf? name := by
  have hstep : t.InStep := (hs.trails.perform hp).2 rfl
  rw [InStep] at hstep
  rw [hstep]
  exact ⟨rfl, rfl, rfl, fun _ => rfl⟩

/-- Refused, after a class inside has been entered. -/
def refusedCode : String := "class Outer \x7b\nclass Inner \x7b\n\x7d\nbad\n\x7d"

/-- Declares a class, replaces the one that was entered, and then fails. -/
def failingCode : String :=
  "class Late \x7b\n\x7d\nclass Inner \x7b\nundefined x\n\x7d\nnowhere"

theorem tables_in_step_after_refused :
    ∃ s t : Session, s.Used ∧ s.machine.declared.classes.keys = [] ∧
      s.parser.declared.classes.keys = ["Inner"] ∧
      s.perform 20 (.evaluate failingCode) = some (t, true) ∧
      t.machine.declared.classes.keys = ["Inner", "Late"] ∧
      t.machine.declared.classes = t.parser.declared.classes ∧
      t.machine.declared.methods = t.parser.declared.methods ∧
      t.machine.declared.containers = t.parser.declared.containers ∧
      ∀ name, t.machine.declared.typeOf? name = t.parser.declared.typeOf? name := by
  have hrun : ((standard.perform 20 (.evaluate refusedCode)).bind fun r =>
      (r.1.perform 20 (.evaluate failingCode)).map fun u =>
        (r.1.machine.declared.classes.keys, r.1.parser.declared.classes.keys, u.2,
          u.1.machine.declared.classes.keys)) = some ([], ["Inner"], true, ["Inner", "Late"]) := by
    decide +kernel
  obtain ⟨⟨s, read⟩, hs, hrun⟩ := Option.bind_eq_some_iff.1 hrun
  obtain ⟨⟨t, read'⟩, ht, hkeys⟩ := Option.map_eq_some_iff.1 hrun
  obtain ⟨hmachine, hparser, rfl, hlate⟩ : s.machine.declared.classes.keys = [] ∧
      s.parser.declared.classes.keys = ["Inner"] ∧ read' = true ∧
      t.machine.declared.classes.keys = ["Inner", "Late"] := by simpa using hkeys
  have hused : s.Used := .after (.new .standard .standard) hs
  exact ⟨s, t, hused, hmachine, hparser, ht, hlate, tables_in_step s t hused 20 _ ht⟩

end Session

end LineScript
