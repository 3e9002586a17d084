import LineScript.Proofs.Parser.Written
import LineScript.Proofs.Shadowing
import LineScript.Proofs.Trace
set_option autoImplicit false

/-!
Arity. A call is checked for the number of its arguments only. That is enough, for the header of a method
makes every parameter behind an optional one optional too: so the required parameters come first, and those
that go without an argument stand at the end and are optional.
-/

namespace LineScript

/-- The second parameter may stand behind the first one. -/
def Variable.Precedes (p q : Variable) : Prop := p.required = false → q.required = false

/-- The variable that a parameter becomes in the frame of a call. -/
def Variable.bound (p : Variable) (v : Value) : Binding := ⟨p.name, v, p.type, p.required, p.line⟩

namespace Method

variable {f : Method Token}

/-- Behind an optional parameter there are only optional ones. -/
def Ordered (f : Method Token) : Prop := f.params.Pairwise Variable.Precedes

/-- So many arguments are too few or too many. -/
def Miscounted (f : Method Token) (n : Nat) : Prop := n < f.requiredCount ∨ f.params.length < n

/-- What a call with so many arguments is answered. -/
def countError (f : Method Token) (n : Nat) : RuntimeError :=
  .parameterCount f.name f.requiredCount f.params.length n

theorem required_iff_of_pairwise {ps : List Variable} (h : ps.Pairwise Variable.Precedes) {i : Nat}
    {p : Variable} (hp : ps[i]? = some p) :
    p.required = true ↔ i < (ps.filter Variable.required).length := by
  induction ps generalizing i with
  | nil => simp at hp
  | cons q qs ih =>
    obtain ⟨hlater, hqs⟩ := List.pairwise_cons.1 h
    cases hq : q.required with
    | true =>
      cases i with
      | zero =>
        obtain rfl : q = p := by simpa using hp
        simp [hq]
      | succ i => simp [ih hqs (by simpa using hp),hq]
    | false =>
      have hall : ∀ r ∈ q :: qs, r.required = false :=
        List.forall_mem_cons.2 ⟨hq, fun r hr => hlater r hr hq⟩
      have hnone : (q :: qs).filter Variable.required = [] := by simpa [List.filter_eq_nil_iff] using hall
      simp [hnone,hall p (List.mem_of_getElem? hp)]

/-- The required parameters are the first ones, as many as there are. -/
theorem Ordered.required_iff (h : f.Ordered) (i : Nat) (p : Variable) (hp : f.params[i]? = some p) :
    p.required = true ↔ i < f.requiredCount := required_iff_of_pairwise h hp

end Method

/-- A question mark makes all later parameters optional, in whatever group it stands. -/
theorem ordered_paramsFrom {d : Declarations} {line : Nat} {optional : Bool} {groups : List (List Token)}
    {vs : List Variable} (h : paramsFrom d line optional groups = .ok vs) :
    vs.Pairwise Variable.Precedes ∧ (optional = true → ∀ v ∈ vs, v.required = false) := by
  induction groups generalizing optional vs with
  | nil =>
    obtain rfl : [] = vs := Except.ok.inj h
    simp
  | cons group r ih =>
    unfold paramsFrom at h
    dsimp only at h
    split at h
    · cases h
    · split at h
      · cases h
      · split at h
        · next rest hr =>
          obtain ⟨hrest, hoptional⟩ := ih hr
          obtain rfl := Except.ok.inj h
          constructor
          · refine List.pairwise_cons.2 ⟨fun w hw hp => ?_, hrest⟩
            exact hoptional (by simpa only [Bool.not_eq_false'] using hp) w hw
          · intro ho
            exact List.forall_mem_cons.2 ⟨by simp [ho], hoptional (by simp [ho])⟩
        · cases h

/-- The parameters of a header are read together. -/
theorem MethodHead.ordered_ofText (d : Declarations) (n : Nat) (text : String) (body : List Line) :
    Located Anywhere (fun head => head.params.Pairwise Variable.Precedes) (ofText d n text body) := by
  have hsignature (tokens : List Token) :
      Located Anywhere (List.Pairwise Variable.Precedes) (readSignature d n tokens) := by
    unfold readSignature
    split
    · exact .nil
    · split
      · cases hr : readParams d _ n with
        | error e => trivial
        | ok vs => exact (ordered_paramsFrom hr).1
      · trivial
  unfold ofText
  split
  · split
    · refine .bind (hsignature _) fun vs hvs => ?_
      cases readReturns d n _ with
      | error e => trivial
      | ok returns => exact hvs
    · trivial
  · trivial

theorem Method.Written.ordered {f : Method Token} (h : f.Written) : f.Ordered := by
  cases h with
  | @method d header tail rest head body hread =>
    unfold MethodHead.read at hread
    generalize takeBody "method" header tail = r at hread
    obtain ⟨e | ⟨text, lines⟩, rest'⟩ := r
    · cases hread
    · exact (MethodHead.ordered_ofText d header.number text lines).of_ok (Prod.mk.inj hread).1
  | converter head line body => exact .nil

namespace Calls

variable {d : Declarations} {f : Method Token} {n : Nat}

theorem checkCount_eq_ok_iff :
    checkCount f n = .ok () ↔ f.requiredCount ≤ n ∧ n ≤ f.params.length := by
  unfold checkCount
  dsimp only
  split
  · next h =>
    simp only [Bool.or_eq_true,decide_eq_true_eq] at h
    simp only [reduceCtorEq,false_iff]
    omega
  · next h =>
    simp only [Bool.or_eq_true,decide_eq_true_eq] at h
    simp only [true_iff]
    omega

theorem checkCount_of_miscounted (h : f.Miscounted n) : checkCount f n = .error (f.countError n) := by
  unfold checkCount
  rw [if_pos (by simpa [Method.Miscounted] using h)]
  rfl

/-- Every parameter is bound in its place: to its own argument, or to nothing if there is none. -/
theorem bound_of_bindParams {ps : List Variable} {values : List Value} {bs : List Binding}
    (h : bindParams d f ps values = .ok bs) :
    bs.length = ps.length ∧ ∀ i p, ps[i]? = some p → ∃ w, bs[i]? = some (p.bound w) ∧
      (∀ v, values[i]? = some v → d.bindParam f p v = .ok w) ∧ (values.length ≤ i → w = .empty) := by
  induction ps generalizing values bs with
  | nil =>
    obtain rfl : [] = bs := by simpa [bindParams] using h
    simp
  | cons q ps ih =>
    cases values with
    | nil =>
      cases hr : bindParams d f ps [] with
      | error e => simp [bindParams,hr,bind,Except.bind] at h
      | ok rest =>
        obtain rfl : q.bound .empty :: rest = bs := by
          simpa [bindParams,hr,bind,Except.bind,pure,Except.pure,Variable.bound] using h
        obtain ⟨hlength, hrest⟩ := ih hr
        refine ⟨by simp [hlength], fun i p hp => ?_⟩
        cases i with
        | zero =>
          obtain rfl : q = p := by simpa using hp
          exact ⟨.empty, rfl, by simp, fun _ => rfl⟩
        | succ i => simpa using hrest i p (by simpa using hp)
    | cons v vs =>
      cases hw : d.bindParam f q v with
      | error e => simp [bindParams,hw,bind,Except.bind] at h
      | ok w =>
        cases hr : bindParams d f ps vs with
        | error e => simp [bindParams,hw,hr,bind,Except.bind] at h
        | ok rest =>
          obtain rfl : q.bound w :: rest = bs := by
            simpa [bindParams,hw,hr,bind,Except.bind,pure,Except.pure,Variable.bound] using h
          obtain ⟨hlength, hrest⟩ := ih hr
          refine ⟨by simp [hlength], fun i p hp => ?_⟩
          cases i with
          | zero =>
            obtain rfl : q = p := by simpa using hp
            exact ⟨w, rfl, by simp [hw], by simp⟩
          | succ i => simpa using hrest i p (by simpa using hp)

end Calls

/-- A method is entered with enough arguments and not too many. The parameters are bound in order, each to
its own argument, and those that go without one are bound empty. -/
structure Entry.Fits (d : Declarations) (e : Entry) : Prop where
  least : e.method.requiredCount ≤ e.values.length
  most : e.values.length ≤ e.method.params.length
  bound : e.bindings.length = e.method.params.length
  given : ∀ (i : Nat) (p : Variable) (v : Value), e.method.params[i]? = some p → e.values[i]? = some v →
    ∃ w, d.bindParam e.method p v = .ok w ∧ e.bindings[i]? = some (p.bound w)
  missing : ∀ (i : Nat) (p : Variable), e.method.params[i]? = some p → e.values.length ≤ i →
    e.bindings[i]? = some (p.bound .empty)

/-- The parameters that go without an argument are optional. -/
def Entry.Spares (e : Entry) : Prop :=
  ∀ (i : Nat) (p : Variable), e.method.params[i]? = some p → e.values.length ≤ i → p.required = false

/-- What was checked before the method was entered. -/
structure Entry.Checked (d : Declarations) (Known : Class Token → Prop) (e : Entry) : Prop where
  callable : d.Callable Known e.method
  counted : Calls.checkCount e.method e.values.length = .ok ()
  bound : Calls.bindParams d e.method e.method.params e.values = .ok e.bindings

variable {d : Declarations} {Known : Class Token → Prop}

theorem Entry.Checked.fits {e : Entry} (h : e.Checked d Known) : e.Fits d := by
  obtain ⟨hleast, hmost⟩ := Calls.checkCount_eq_ok_iff.1 h.counted
  obtain ⟨hlength, hbound⟩ := Calls.bound_of_bindParams h.bound
  refine ⟨hleast, hmost, hlength, fun i p v hp hv => ?_, fun i p hp hi => ?_⟩
  · obtain ⟨w, hw, hgiven, -⟩ := hbound i p hp
    exact ⟨w, hgiven v hv, hw⟩
  · obtain ⟨w, hw, -, hempty⟩ := hbound i p hp
    obtain rfl := hempty hi
    exact hw

/-- The order of the parameters is what makes the count enough. -/
theorem Entry.Fits.spares {e : Entry} (h : e.Fits d) (ho : e.method.Ordered) : e.Spares := by
  intro i p hp hi
  have hleast := h.least
  rw [← Bool.not_eq_true,ho.required_iff i p hp]
  omega

/-- From the one machine to the other, methods were entered only in such ways. -/
def Machine.Enters (P : Entry → Prop) (m m' : Machine) : Prop :=
  ∃ made, m'.entries = made ++ m.entries ∧ ∀ e ∈ made, P e

namespace Machine.Enters

variable {P : Entry → Prop} {m m' m'' : Machine}

theorem of_eq (h : m'.entries = m.entries) : m.Enters P m' := ⟨[], h, by simp⟩

theorem trans (h : m.Enters P m') (h' : m'.Enters P m'') : m.Enters P m'' := by
  obtain ⟨made, hmade, hall⟩ := h
  obtain ⟨more, hmore, hall'⟩ := h'
  refine ⟨more ++ made, by simp [hmore,hmade], fun e he => ?_⟩
  exact (List.mem_append.1 he).elim (hall' e) (hall e)

end Machine.Enters

/-- One step enters no method, or one with all checks made. -/
theorem Step.enters {s t : Stage} (h : Step d Known s t) :
    s.machine.Enters (Entry.Checked d Known) t.machine := by
  cases h with
  | @params m s f values bs _ hf hn hb _ =>
    refine ⟨[⟨f, values, bs⟩], rfl, fun e he => ?_⟩
    obtain rfl := List.mem_singleton.1 he
    exact ⟨hf, hn, hb⟩
  | capture m e =>
    refine .of_eq ?_
    dsimp only [Machine.capture]
    split <;> rfl
  | _ => exact .of_eq rfl

theorem Steps.enters {s t : Stage} (h : Steps d Known s t) :
    s.machine.Enters (Entry.Checked d Known) t.machine := by
  induction h with
  | refl => exact .of_eq rfl
  | tail _ hstep ih => exact ih.trans hstep.enters

theorem Declarations.Written.of_declares (h : d.Written) {c : Class Token} (hc : d.Declares c) :
    c.Written := by
  obtain ⟨name, hc⟩ := hc
  exact h.classes _ (Table.mem_of_get? hc)

theorem Declarations.Callable.written {f : Method Token} (hd : d.Written)
    (hf : d.Callable Class.Written f) : f.Written := by
  cases hf with
  | global hf => exact hd.methods _ (Table.mem_of_get? hf) f (.method f)
  | ofClass hc hf => exact hc f (.ofClass (Table.mem_of_get? hf) (.method f))
  | converter hc hv => exact hc _ (.converter hv (.method _))

theorem Memory.Peopled.clear {P : Value → Prop} {s : Memory} (h : s.Peopled P) : s.clear.Peopled P :=
  ⟨⟨by simp [Memory.clear], by simp [Memory.clear], h.bindings.heap⟩, by simp [Memory.clear]⟩

namespace Machine

variable {m : Machine}

theorem enters_topLine (hd : ∀ c, d.Declares c → Known c) (fuel : Nat) (row : Row Token) (m' : Machine)
    (h : m'.Has d Known ∧ m.Enters (Entry.Checked d Known) m') :
    let m'' := ((Calls.upTo fuel).runLine row { m' with failure := none }).machine
    m''.Has d Known ∧ m.Enters (Entry.Checked d Known) m'' := by
  have hhas : Machine.Has d Known { m' with failure := none } := { h.1 with }
  obtain ⟨mode, hsteps⟩ := ((Calls.stepwise_upTo hd fuel).runLine hhas hd row).machine
  exact ⟨hsteps.has hhas, h.2.trans hsteps.enters⟩

/-- Whatever is run, and however the run ends. -/
theorem enters_run (hm : m.Has d Known) (hd : ∀ c, d.Declares c → Known c) {fuel : Nat}
    {rows : List (Row Token)} {o : Outcome Value}
    (ho : o = m.execute fuel rows ∨ o = m.executeIsolated fuel rows) :
    o.machine.Has d Known ∧ m.Enters (Entry.Checked d Known) o.machine := by
  have hline := enters_topLine (m := m) hd fuel
  have hstart : m.Has d Known ∧ m.Enters (Entry.Checked d Known) m := ⟨hm, .of_eq rfl⟩
  rcases ho with rfl | rfl
  · exact runStrict_keeps hline .empty rows hstart
  · exact runIsolated_keeps hline (fun _ _ h => ⟨{ h.1 with }, h.2.trans (.of_eq rfl)⟩) .empty rows hstart

/-- A machine that was new and has loaded parsed programs and run lines, had variables defined and
forgotten, and its output and errors taken. A host and whoever defines variables may hand it instances,
but of classes that were written. -/
inductive Used : Machine → Prop where
  | new (config : Config) {host : Host} : host.Of Class.Written → Used (.new config host)
  | load {m : Machine} {program : Program} : m.Used → program.Parsed → (m.load program.declared).Used
  | run {m : Machine} {fuel : Nat} {rows : List (Row Token)} {o : Outcome Value} : m.Used →
    o = m.execute fuel rows ∨ o = m.executeIsolated fuel rows → o.machine.Used
  | define {m : Machine} {s : Memory} {b : Binding} : m.Used → b.value.Of Class.Written →
    m.memory.declare b = .ok s → (m.setMemory s).Used
  | reset {m : Machine} : m.Used → m.resetVariables.Used
  | taken {m : Machine} (output : Array String) (errors : Array Reported) : m.Used →
    Used { m with output, errors }

/-- Nothing unwritten gets onto such a machine. -/
theorem Used.written (h : m.Used) : m.declared.Written ∧ m.Has m.declared Class.Written := by
  induction h with
  | new config hhost => exact ⟨Declarations.written_empty, rfl, hhost, .empty⟩
  | load _ hp ih => exact ⟨ih.1.merge hp.written.1, rfl, ih.2.host, ih.2.memory⟩
  | run _ ho ih =>
    obtain ⟨hhas, -⟩ := enters_run ih.2 (fun _ hc => ih.1.of_declares hc) ho
    rw [hhas.declared]
    exact ⟨ih.1, hhas⟩
  | define _ hb hs ih => exact ⟨ih.1, ih.2.setMemory (ih.2.memory.declare hs hb)⟩
  | reset _ ih => exact ⟨ih.1, { ih.2 with memory := ih.2.memory.clear }⟩
  | taken output errors _ ih => exact ⟨ih.1, { ih.2 with }⟩

end Machine

/-- The tokens behind the name of a method that are read as its arguments. -/
def Method.argumentTokens? (f : Method Token) : List Token → Option (List Token)
  | [] => some []
  | t :: rest => if t.kind = .colon then some rest else if f.nocol then some (t :: rest) else none

/-- In the machine `m` a call of the method `f` begins, by one of four routes; it has come to have `n`
argument values, or so many groups of tokens for them, in the machine `m'`. -/
inductive Calls.Arrives (k : Calls) (f : Method Token) (n : Nat) (m : Machine) :
    {α : Type} → Exec α → Machine → Prop where
  | byName {self : Option Reference} {tokens args : List Token} : f.argumentTokens? tokens = some args →
    (Token.arguments args).length = n → Arrives k f n m (k.callMethod f self tokens) m
  | byParams {c : Class Token} {r : Reference} {init : String} {rule : Rule} {found : Pattern.Match}
    {values : List Value} {m' : Machine} : c.params = some rule →
    rule.pattern.matchWhole init = some found → methodOf c rule.method m = .ok f m →
    k.boundValues (rule.bind m.declared.typeOf? found) m = .ok values m' → values.length = n →
    Arrives k f n m (k.initialise c r init) m'
  | byWatch {call : BoundCall} {c : Class Token} {values : List Value} {r : Reference} {m₁ m' : Machine} :
    m.declared.classes.get? call.className = some c → methodOf c call.method m = .ok f m →
    k.boundValues call.args m = .ok values m₁ → k.newInstance .byWatch c m₁ = .ok r m' →
    values.length = n → Arrives k f n m (k.callBound call) m'
  | byConverter {r : Reference} {target : DataType} {v : Converter Token} :
    r.ofClass.converter? target = some v → v.method = f → n = 0 →
    Arrives k f n m (k.convert r target) m

namespace Calls

variable {k : Calls} {f : Method Token} {n : Nat} {m m' : Machine}

theorem bind_of_error {α β : Type} {x : Exec α} {g : α → Exec β} {e : RuntimeError}
    (h : x m = .error e m') : (x >>= g) m = .error e m' := by rw [Exec.bind_apply,Exec.bind,h]

theorem invoke_refused {self : Option Reference} {values : List Value} (h : f.Miscounted values.length) :
    k.invoke f self values m =
      .error (f.countError values.length) (m.raise (f.countError values.length)) := by
  unfold invoke
  rw [checkCount_of_miscounted h]
  rfl

theorem callMethod_eq_callWith {tokens args : List Token} (h : f.argumentTokens? tokens = some args)
    (self : Option Reference) : k.callMethod f self tokens = k.callWith f self args := by
  unfold callMethod
  cases tokens with
  | nil =>
    obtain rfl : [] = args := by simpa [Method.argumentTokens?] using h
    rfl
  | cons t rest =>
    simp only [Method.argumentTokens?] at h
    split at h
    · next hcolon =>
      obtain rfl := Option.some.inj h
      simp [hcolon]
    · next hcolon =>
      split at h
      · next hnocol =>
        obtain rfl := Option.some.inj h
        simp [hcolon,hnocol]
      · cases h

/-- The arguments are counted before any of them is evaluated. -/
theorem callWith_refused {self : Option Reference} {args : List Token}
    (h : f.Miscounted (Token.arguments args).length) :
    k.callWith f self args m = .error (f.countError (Token.arguments args).length)
      (m.raise (f.countError (Token.arguments args).length)) := by
  unfold callWith
  rw [checkCount_of_miscounted h]
  rfl

/-- A call with too few or too many arguments ends where they were counted: the error arises there, and
nothing else happens. -/
theorem Arrives.refused {α : Type} {x : Exec α} (h : k.Arrives f n m x m') (hn : f.Miscounted n) :
    x m = .error (f.countError n) (m'.raise (f.countError n)) := by
  cases h with
  | byName hargs hlength =>
    subst hlength
    rw [callMethod_eq_callWith hargs]
    exact callWith_refused hn
  | @byParams c r init rule found values _ hrule hfound hmethod hvalues hlength =>
    subst hlength
    have hrefused : k.invoke f (some r) values m' = _ := invoke_refused hn
    have hdiscard : discard (k.invoke f (some r) values) m' = _ := bind_of_error hrefused
    simp [initialise,Exec.bind_apply,Exec.bind,Exec.read,hrule,hfound,hmethod,hvalues,hdiscard]
  | byWatch hclass hmethod hvalues hinstance hlength =>
    subst hlength
    simp [callBound,Exec.bind_apply,Exec.bind,Exec.read,hclass,hmethod,hvalues,hinstance,invoke_refused hn]
  | @byConverter r target v hconverter hmethod hzero =>
    subst hmethod hzero
    have hrefused : k.invoke v.method (some r) [] m = _ := invoke_refused hn
    unfold convert
    rw [hconverter]
    exact bind_of_error hrefused

end Calls

/-- In a parsed program the required parameters of every method come first. Whatever is run, a method is
entered only with an argument for each of them and none too many: each argument goes to the parameter in its
place, and on a machine with nothing but parsed programs those that are bound empty are optional. With any
other number of arguments a call ends where they are counted, by whichever route it came, and the error says
how many the method takes. -/
theorem only_optional_missing (program : Program) (hprogram : program.Parsed) (m : Machine) (fuel : Nat)
    (rows : List (Row Token)) (o : Outcome Value)
    (ho : o = m.execute fuel rows ∨ o = m.executeIsolated fuel rows) :
    (∀ f, program.Holds f → f.Ordered ∧
      ∀ (i : Nat) (p : Variable), f.params[i]? = some p → (p.required = true ↔ i < f.requiredCount)) ∧
    (∃ made, o.machine.entries = made ++ m.entries ∧
      ∀ e ∈ made, e.Fits m.declared ∧ (m.Used → e.Spares)) ∧
    ∀ (k : Calls) (f : Method Token) (n : Nat) (before after : Machine) (α : Type) (call : Exec α),
      k.Arrives f n before call after → f.Miscounted n →
      call before = .error (f.countError n) (after.raise (f.countError n)) := by
  refine ⟨fun f hf => ?_, ?_, fun k f n before after α call harrives hn => harrives.refused hn⟩
  · have hordered := (hprogram.written_of_holds hf).ordered
    exact ⟨hordered, hordered.required_iff⟩
  · by_cases hm : m.Used
    · obtain ⟨hdeclared, hhas⟩ := hm.written
      obtain ⟨made, hmade, hall⟩ := (Machine.enters_run hhas (fun _ hc => hdeclared.of_declares hc) ho).2
      refine ⟨made, hmade, fun e he => ?_⟩
      have hfits := (hall e he).fits
      exact ⟨hfits, fun _ => hfits.spares ((hall e he).callable.written hdeclared).ordered⟩
    · obtain ⟨made, hmade, hall⟩ := (Machine.enters_run m.has_any (fun _ _ => trivial) ho).2
      exact ⟨made, hmade, fun e he => ⟨(hall e he).fits, fun hu => absurd hu hm⟩⟩

/-- A method is called by a parameter rule, by a watch rule and by name, there with an argument that needs a
converter; the last call has no argument. -/
def aritySource : String :=
  "class P \x7b\nmethod f : @string:a, b?, c\nreturn a\nget => @string\nreturn a\n" ++
    "explicit params \x7ba\x7d,\x7bb\x7d => f\nexplicit watch at\x7ba\x7d => f\n\x7d\n" ++
    "P x new : u,v\natw\nx f : x\nx f"

theorem only_optional_missing_by_every_route :
    ∃ q program c f, Parser.empty.parseWith 20 aritySource = some (q, .ok program) ∧
      program.declared.classes.get? "P" = some c ∧ Table.get? c.methods "f" = some f ∧
      let m := (Machine.new .standard .standard).load program.declared
      let m' := (m.executeIsolated 9 program.lines).machine
      m'.entries.map (fun e => (e.method.name, e.method.requiredCount, e.values.length, e.bindings.length)) =
        [("f", 1, 1, 3), ("get @string", 0, 0, 0), ("f", 1, 1, 3), ("f", 1, 2, 3)] ∧
      m'.raised.map Raise.error = [.parameterCount "f" 1 3 0] ∧
      (∀ e ∈ m'.entries, e.Fits m.declared ∧ e.Spares) ∧ f.Ordered ∧
      (Calls.upTo 9).callMethod f none [] m =
        .error (.parameterCount "f" 1 3 0) (m.raise (.parameterCount "f" 1 3 0)) := by
  have hrun : ((Parser.empty.parseWith 20 aritySource).bind fun r => r.2.toOption.bind fun program =>
      let m := (Machine.new .standard .standard).load program.declared
      let m' := (m.executeIsolated 9 program.lines).machine
      (program.declared.classes.get? "P").bind fun c => (Table.get? c.methods "f").map fun f =>
        (m'.entries.map fun e =>
            (e.method.name, e.method.requiredCount, e.values.length, e.bindings.length),
          m'.raised.map Raise.error, f.name, f.requiredCount, f.params.length)) =
      some ([("f", 1, 1, 3), ("get @string", 0, 0, 0), ("f", 1, 1, 3), ("f", 1, 2, 3)],
        [.parameterCount "f" 1 3 0], "f", 1, 3) := by
    decide +kernel
  obtain ⟨⟨q, r⟩, hread, hrun⟩ := Option.bind_eq_some_iff.1 hrun
  obtain ⟨program, hr, hrun⟩ := Option.bind_eq_some_iff.1 hrun
  cases r with
  | error e => cases hr
  | ok found =>
    obtain rfl : found = program := Option.some.inj hr
    obtain ⟨c, hc, hrun⟩ := Option.bind_eq_some_iff.1 hrun
    obtain ⟨f, hf, hrun⟩ := Option.map_eq_some_iff.1 hrun
    obtain ⟨hentries, hraised, hname, hleast, hmost⟩ : _ ∧ _ ∧ _ ∧ _ ∧ _ := by
      simpa only [Prod.mk.injEq] using hrun
    have hparsed : found.Parsed := .strict .new hread
    have hused : Machine.Used ((Machine.new .standard .standard).load found.declared) :=
      .load (.new .standard (Host.of_standard _)) hparsed
    have hholds : found.Holds f :=
      .inr (.inl ⟨_, Table.mem_of_get? hc, .ofClass (Table.mem_of_get? hf) (.method f)⟩)
    obtain ⟨hordered, ⟨made, hmade, hall⟩, hrefused⟩ :=
      only_optional_missing found hparsed _ 9 found.lines _ (.inr rfl)
    have herror : f.countError 0 = .parameterCount "f" 1 3 0 := by
      rw [Method.countError,hname,hleast,hmost]
    refine ⟨q, found, c, f, hread, hc, hf, hentries, hraised, fun e he => ?_, (hordered f hholds).1, ?_⟩
    · rw [hmade] at he
      obtain ⟨hfits, hspares⟩ := hall e (by simpa [Machine.load,Machine.new] using he)
      exact ⟨hfits, hspares hused⟩
    · rw [← herror]
      exact hrefused _ f 0 _ _ _ _ (.byName rfl rfl) (.inl (by omega))

end LineScript
