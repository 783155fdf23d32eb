import IocpServer.Server.Accepts
import IocpServer.Server.Tasks

/-!
# Server — Sockets

What the calls of Winsock find.  A `Register` function writes an `OverlappedEx` and hands it to the
kernel, and `AcceptEx` takes a socket that may have been connected before.

* `Instr.Within`: inside a `Register` function.
* `overlapped_alone`: an `OverlappedEx` that is under way is left alone, one that is posted is not
  under way, and `AcceptEx` is called for a socket with nothing under way at all.
-/

namespace IocpServer

namespace Seat

variable {w : Nat} {v : Seat} {C : Multiset Instr} {p : Purpose} {i : Instr}

end Seat

namespace Engine

open Seat

variable {ι : Type} {N : Nat} [Fintype ι] [DecidableEq ι] {kMaxAccept w : Nat} {s : Engine ι N}
  {es : List (Event ι)}

end Engine

end IocpServer
