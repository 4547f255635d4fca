import Gdnp.Lib.Undefined
import Gdnp.Client
import Gdnp.Offer
import Gdnp.Session

/-!
# What the threads write outside their memory

`last_content` is compared with `strcmp` and set with `strcpy`, and `parse_bits` copies the value of
an option into a block of two bytes.  So a message without a zero byte, or with a longer value,
makes the session thread write where it has no right to, and what the process does from then on is
undefined (`ServerSession.process`).  The negotiation thread of a client also copies the answer of
its ASA into `send_buffer` (`Client.InBounds`).  The answers of both ASAs are taken for C strings,
as `run` and `do_negotiate` take them.
-/

open CMem

namespace Gdnp

namespace ServerSession

/-- The step of the session thread stays inside its memory: a message that it pops has a zero byte,
and the value of the option that it parses, before it looks at the state again, fits into the
block. -/
def InBounds (o : ByteOrder) (s : ServerSession) : SessionAct → Prop
  | .run _ => match s.runPc with
    | .pop => ∀ c ∈ s.q.head?, c.Terminated
    | .checkEnd c => c.InBlock o
    | _ => True
  | _ => True

instance (o : ByteOrder) (s : ServerSession) : DecidablePred (s.InBounds o)
  | .run _ => by
    unfold InBounds
    generalize s.runPc = pc
    rcases pc with _ | _ <;> infer_instance
  | .push _ | .wait _ _ | .ends _ => inferInstanceAs (Decidable True)

/-- The process in which the session runs. -/
def process (o : ByteOrder) :
    EventMachine (Option ServerSession) (SessionAct × List SessionEvent) SessionEvent :=
  (machine o).orUndefined (InBounds o)

end ServerSession

/-- The step of the negotiation thread stays inside its memory: the values of a counter-offer, and
of the offer that has been accepted, fit into the block of `parse_bits`, and the client's answer
into `send_buffer`. -/
def Client.InBounds (o : ByteOrder) (c : Client) (env : ClientEnv) : Prop :=
  match c.pc with
  | .doNegotiate .negoMsg => Content.InBlock o ⟨.negoMsg, c.buffer⟩ ∧
    env.asaAnswer.bytes.length + ObjectiveOption.lenExceptValue ≤ maxStringLength
  | .doNegotiate .negoEndMsg => Content.InBlock o ⟨.negoEndMsg, c.buffer⟩ ∧
    Content.InBlock o ⟨.requestMsg, c.lastTopOptions⟩
  | _ => True

instance (o : ByteOrder) (c : Client) (env : ClientEnv) : Decidable (c.InBounds o env) := by
  unfold Client.InBounds
  split <;> infer_instance

end Gdnp
