import Mathlib.Data.List.Basic

/-!
# Protocol numbers

The numbers of `prot_types.h` that the decoders act on, and the label switches of `decode_proto.c`
as tables. A number that is missing from a table has no `case` in the switch.
-/

namespace EtherApe

def ethertypeIp : Nat := 0x0800

def ethertypeIpv6 : Nat := 0x86dd

def ethertypeIpx : Nat := 0x8137

def ethertypeVlan : Nat := 0x8100

def ipProtoTcp : Nat := 6

def ipProtoUdp : Nat := 17

def sapIp : Nat := 0x06

def sapSnap : Nat := 0xAA

def sapNetware : Nat := 0xE0

def sapNetbios : Nat := 0xF0

def tcpFtp : Nat := 21

def tcpNetbiosSsn : Nat := 139

def udpNetbiosNs : Nat := 138

/-- The cases of `append_etype_prot`; `ETHERTYPE_IPX` has one that adds nothing. -/
def etypeLabels : List (Nat × String) :=
  [(0x0800, "IP"), (0x0806, "ARP"), (0x86dd, "IPV6"), (0x0805, "X25L3"), (0x8035, "REVARP"),
    (0x809b, "ATALK"), (0x80f3, "AARP"), (0x0bad, "VINES"), (0x1984, "TRAIN"), (0x9000, "LOOP"),
    (0x8863, "PPPOED"), (0x8864, "PPPOES"), (0x8100, "VLAN"), (0x814c, "SNMP"), (0x6001, "DNA-DL"),
    (0x6002, "DNA-RC"), (0x6003, "DNA-RT"), (0x6000, "DEC"), (0x6005, "DEC-DIAG"),
    (0x6006, "DEC-CUST"), (0x6007, "DEC-SCA"), (0x8038, "DEC-LB"), (0x8847, "MPLS"),
    (0x8848, "MPLS-MULTI"), (0x6004, "LAT"), (0x880b, "PPP"), (0x80ff, "WCP"),
    (0x3c07, "3C-NBP-DGRAM"), (0x6558, "ETHBRIDGE"), (0x0000, "ETH_UNKNOWN")]

/-- The cases of `get_llc` that only add a label. -/
def sapLabels : List (Nat × String) :=
  [(0x00, "LLC-NULL"), (0x02, "LLC-SLMGMT"), (0x04, "PATHCTRL"), (0x08, "SNA1"), (0x0C, "SNA2"),
    (0x0E, "PROWAY-NM-INIT"), (0x18, "TI"), (0x42, "BPDU"), (0x4E, "RS511"), (0x7E, "X25"),
    (0x80, "XNS"), (0x86, "NESTAR"), (0x8E, "PROWAY-ASLM"), (0x98, "ARP"), (0xAA, "LLC-SNAP"),
    (0xBA, "VINES1"), (0xBC, "VINES2"), (0xF4, "IBMNM"), (0xF8, "RPL1"), (0xFA, "UB"),
    (0xFC, "RPL2"), (0xFE, "OSINL"), (0xFF, "LLC-GLOBAL")]

/-- The cases of `get_ip` that only add a label. -/
def ipProtoLabels : List (Nat × String) :=
  [(1, "ICMP"), (2, "IGMP"), (3, "GGP"), (4, "IPIP"), (8, "EGP"), (12, "PUP"), (22, "IDP"),
    (29, "TP"), (41, "IPV6"), (43, "ROUTING"), (44, "FRAGMENT"), (46, "RSVP"), (47, "GRE"),
    (50, "ESP"), (51, "AH"), (58, "ICPMPV6"), (59, "NONE"), (60, "DSTOPTS"), (83, "VINES"),
    (88, "EIGRP"), (89, "OSPF"), (98, "ENCAP"), (103, "PIM"), (108, "IPCOMP"), (112, "VRRP")]

def ipProtoLabel (ipType : Nat) : String := (ipProtoLabels.lookup ipType).getD "IP_UNKNOWN"

/-- The packet types of `get_ipx` that add a label. -/
def ipxTypeLabels : List (Nat × String) :=
  [(1, "IPX-RIP"), (2, "IPX-ECHO"), (3, "IPX-ERROR"), (5, "IPX-SPX"), (17, "IPX-NCP"),
    (20, "IPX-NetBIOS")]

/-- The packet types after which `get_ipx` looks at the sockets: plain IPX, PEP and broadcast. -/
def ipxSocketTypes : List Nat := [0, 4, 20]

/-- The sockets of `get_ipx` in the order they are tested. -/
def ipxSocketLabels : List (List Nat × String) :=
  [([0x0452], "IPX-SAP"), ([0x055d], "ATTACHMATE-GW"), ([0x9086], "PING-NOVELL"),
    ([0x0451], "IPX-NCP"), ([0x0453], "IPX-RIP"), ([0x0455], "IPX-NetBIOS"), ([0x0456], "IPX-DIAG"),
    ([0x0457], "IPX-SERIAL."), ([0x8522], "IPX-ADSM"), ([0x85be], "EIGRP"),
    ([0x9001], "IPX W.A. ROUTER"), ([0x9091], "IPX-TCP-TUNNEL"), ([0x9092], "IPX-UDP-TUNNEL"),
    ([0x0550, 0x0551, 0x0552, 0x0553, 0x0554, 0x0555], "IPX-SMB"), ([0x900F, 0x9010], "SNMP")]

def ipxSocketLabel (ipxDsocket ipxSsocket : Nat) : Option String :=
  (ipxSocketLabels.find? fun group => ipxDsocket ∈ group.1 ∨ ipxSsocket ∈ group.1).map (·.2)

/-- The known programs of `get_rpc`. -/
def rpcProgramLabels : List (Nat × String) :=
  [(100026, "BOOTPARAMS"), (100005, "MOUNT"), (100021, "NLM"), (100000, "PORTMAP"), (100024, "STAT"),
    (100003, "NFS"), (100007, "YPBIND"), (100004, "YPSERV"), (100069, "YPXFR"), (100009, "YPPASSWD"),
    (100017, "REXEC"), (100078, "KERBPROG")]

/-- The label of an RPC call, if the program number is in the range of RPC programs at all. -/
def rpcProgramLabel (msgProgram : Nat) : Option String :=
  match rpcProgramLabels.lookup msgProgram with
  | some label => some label
  | none => if 100000 ≤ msgProgram ∧ msgProgram ≤ 101999 then some "RPC-UNKNOWN" else none

def wlanMgmtLabels : List (Nat × String) :=
  [(0, "WLAN-ASSOC"), (1, "WLAN-ASSOC"), (2, "WLAN-ASSOC"), (3, "WLAN-ASSOC"), (4, "WLAN-PROBE"),
    (5, "WLAN-PROBE"), (8, "WLAN-BEACON"), (9, "WLAN-ATIM"), (10, "WLAN-DEASSOC"),
    (11, "WLAN-AUTH"), (12, "WLAN-AUTH")]

def wlanCtrlLabels : List (Nat × String) :=
  [(10, "WLAN-PS-POLL"), (11, "WLAN-RTS"), (12, "WLAN-CTS"), (13, "WLAN-ACK"), (14, "WLAN-CF-END"),
    (15, "WLAN-CF-END")]

theorem mem_of_lookup {κ ν : Type} [BEq κ] [LawfulBEq κ] {table : List (κ × ν)} {key : κ} {value : ν}
    (h : table.lookup key = some value) : (key, value) ∈ table := by
  obtain ⟨before, after, rfl, _⟩ := List.lookup_eq_some_iff.mp h
  exact List.mem_append_right _ List.mem_cons_self

end EtherApe
