import UBoot.Net.Tftp

/-!
# ARP and RARP (`net/arp.c`, `net/rarp.c`)

Both handlers are called for every frame that `NetReceive` passes on, and both start TFTP;
`ArpHandler` looks at `NetServerEther` first.
-/

namespace UBoot.Net

/-- The address an ARP request asks for: the server, or the gateway if the server is not on
our net. -/
def Params.arpTarget (p : Params) : UInt32 :=
  if p.netServerIP &&& p.netOurSubnetMask ≠ p.netOurIP &&& p.netOurSubnetMask then
    p.netOurGatewayIP
  else p.netServerIP

def arpRequest (s : Globals) : Globals :=
  let s := { s with arpTry := s.arpTry + 1 }
  netSetHandler .arp (netSetTimeout .arp (netSendPacket (.arpRequest s.params.arpTarget) s))

def arpHandler (x : Ext) (s : Globals) : Globals :=
  if s.params.netServerEther ≠ netBcastAddr then tftpStart x s else s

def arpTimeout (b : Board) (x : Ext) (s : Globals) : Globals :=
  if s.arpTry ≥ b.timeoutCount then netStartAgain b x s
  else arpRequest (netSetTimeout .arp s)

def rarpRequest (s : Globals) : Globals :=
  let s := { s with rarpTry := s.rarpTry + 1 }
  netSetHandler .rarp (netSetTimeout .rarp (netSendPacket .rarpRequest s))

def rarpHandler (x : Ext) (s : Globals) : Globals := tftpStart x s

def rarpTimeout (b : Board) (x : Ext) (s : Globals) : Globals :=
  if s.rarpTry ≥ b.timeoutCount then netStartAgain b x s
  else rarpRequest (netSetTimeout .rarp s)

end UBoot.Net
