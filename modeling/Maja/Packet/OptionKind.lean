/-
# Kinds of options

The registries of the options of IPv4, TCP and IPv6 and of the chunks of SCTP, from
`src/packet/layer`: the variant of a byte, and the byte of a variant.  A byte without a
variant of its own is kept, so every byte survives its typed form.
-/

import Maja.Lib.Word

namespace Maja
namespace Packet

/-- `Ipv4OptionKind`. -/
inductive Ipv4OptionKind where
  | endOfOptions | noOperation | security | looseSourceRoute | timestamp | extendedSecurity
  | commercialSecurity | recordRoute | streamId | strictSourceRoute | experimentalMeasurement
  | mtuProbe | mtuReply | experimentalFlowControl | visa | encode | imiTrafficDescriptor
  | extendedInternetProtocol | traceroute | addressExtension | routerAlert
  | selectiveDirectedBroadcast | released150 | dynamicPacketState | upstreamMulticastPacket
  | quickStart | rfc3692Experiment30 | rfc3692Experiment94 | rfc3692Experiment158
  | rfc3692Experiment222
  | unknown (value : ℕ)
  deriving DecidableEq, Repr

namespace Ipv4OptionKind

/-- `Ipv4OptionKind::from(u8)`. -/
def ofCode : ℕ → Ipv4OptionKind
  | 0 => endOfOptions
  | 1 => noOperation
  | 130 => security
  | 131 => looseSourceRoute
  | 68 => timestamp
  | 133 => extendedSecurity
  | 134 => commercialSecurity
  | 7 => recordRoute
  | 136 => streamId
  | 137 => strictSourceRoute
  | 10 => experimentalMeasurement
  | 11 => mtuProbe
  | 12 => mtuReply
  | 205 => experimentalFlowControl
  | 142 => visa
  | 15 => encode
  | 144 => imiTrafficDescriptor
  | 145 => extendedInternetProtocol
  | 82 => traceroute
  | 147 => addressExtension
  | 148 => routerAlert
  | 149 => selectiveDirectedBroadcast
  | 150 => released150
  | 151 => dynamicPacketState
  | 152 => upstreamMulticastPacket
  | 25 => quickStart
  | 30 => rfc3692Experiment30
  | 94 => rfc3692Experiment94
  | 158 => rfc3692Experiment158
  | 222 => rfc3692Experiment222
  | value => unknown value

/-- `u8::from(Ipv4OptionKind)`. -/
def code : Ipv4OptionKind → ℕ
  | endOfOptions => 0
  | noOperation => 1
  | security => 130
  | looseSourceRoute => 131
  | timestamp => 68
  | extendedSecurity => 133
  | commercialSecurity => 134
  | recordRoute => 7
  | streamId => 136
  | strictSourceRoute => 137
  | experimentalMeasurement => 10
  | mtuProbe => 11
  | mtuReply => 12
  | experimentalFlowControl => 205
  | visa => 142
  | encode => 15
  | imiTrafficDescriptor => 144
  | extendedInternetProtocol => 145
  | traceroute => 82
  | addressExtension => 147
  | routerAlert => 148
  | selectiveDirectedBroadcast => 149
  | released150 => 150
  | dynamicPacketState => 151
  | upstreamMulticastPacket => 152
  | quickStart => 25
  | rfc3692Experiment30 => 30
  | rfc3692Experiment94 => 94
  | rfc3692Experiment158 => 158
  | rfc3692Experiment222 => 222
  | unknown value => value

/-- A byte survives its typed form. -/
theorem code_ofCode (value : ℕ) : (ofCode value).code = value := by
  unfold ofCode
  split <;> rfl

end Ipv4OptionKind

/-- `TcpOptionKind`. -/
inductive TcpOptionKind where
  | endOfOptions | noOperation | maximumSegmentSize | windowScale | sackPermitted | sack | echo
  | echoReply | timestamp | partialOrderConnectionPermitted | partialOrderServiceProfile | cc
  | ccNew | ccEcho | alternateChecksumRequest | alternateChecksumData | skeeter | bubba
  | trailerChecksum | md5Signature | scpsCapabilities | selectiveNegativeAcknowledgements
  | recordBoundaries | corruptionExperienced | snap | unassigned25 | tcpCompressionFilter
  | quickStartResponse | userTimeout | authentication | multipathTcp | fastOpenCookie
  | unknown (value : ℕ)
  deriving DecidableEq, Repr

namespace TcpOptionKind

/-- `TcpOptionKind::from(u8)`. -/
def ofCode : ℕ → TcpOptionKind
  | 0 => endOfOptions
  | 1 => noOperation
  | 2 => maximumSegmentSize
  | 3 => windowScale
  | 4 => sackPermitted
  | 5 => sack
  | 6 => echo
  | 7 => echoReply
  | 8 => timestamp
  | 9 => partialOrderConnectionPermitted
  | 10 => partialOrderServiceProfile
  | 11 => cc
  | 12 => ccNew
  | 13 => ccEcho
  | 14 => alternateChecksumRequest
  | 15 => alternateChecksumData
  | 16 => skeeter
  | 17 => bubba
  | 18 => trailerChecksum
  | 19 => md5Signature
  | 20 => scpsCapabilities
  | 21 => selectiveNegativeAcknowledgements
  | 22 => recordBoundaries
  | 23 => corruptionExperienced
  | 24 => snap
  | 25 => unassigned25
  | 26 => tcpCompressionFilter
  | 27 => quickStartResponse
  | 28 => userTimeout
  | 29 => authentication
  | 30 => multipathTcp
  | 34 => fastOpenCookie
  | value => unknown value

/-- `u8::from(TcpOptionKind)`. -/
def code : TcpOptionKind → ℕ
  | endOfOptions => 0
  | noOperation => 1
  | maximumSegmentSize => 2
  | windowScale => 3
  | sackPermitted => 4
  | sack => 5
  | echo => 6
  | echoReply => 7
  | timestamp => 8
  | partialOrderConnectionPermitted => 9
  | partialOrderServiceProfile => 10
  | cc => 11
  | ccNew => 12
  | ccEcho => 13
  | alternateChecksumRequest => 14
  | alternateChecksumData => 15
  | skeeter => 16
  | bubba => 17
  | trailerChecksum => 18
  | md5Signature => 19
  | scpsCapabilities => 20
  | selectiveNegativeAcknowledgements => 21
  | recordBoundaries => 22
  | corruptionExperienced => 23
  | snap => 24
  | unassigned25 => 25
  | tcpCompressionFilter => 26
  | quickStartResponse => 27
  | userTimeout => 28
  | authentication => 29
  | multipathTcp => 30
  | fastOpenCookie => 34
  | unknown value => value

/-- A byte survives its typed form. -/
theorem code_ofCode (value : ℕ) : (ofCode value).code = value := by
  unfold ofCode
  split <;> rfl

end TcpOptionKind

/-- `Ipv6OptionKind`. -/
inductive Ipv6OptionKind where
  | pad1 | padN | tunnelEncapsulationLimit | routerAlert | calipso | smfDpd
  | performanceDiagnosticMetrics | altMark | rpl | quickStart | minimumPathMtu | mpl
  | endpointIdentification | ilnpNonce | lineIdentification | jumboPayload | homeAddress | ipDff
  | unknown (value : ℕ)
  deriving DecidableEq, Repr

namespace Ipv6OptionKind

/-- `Ipv6OptionKind::from(u8)`. -/
def ofCode : ℕ → Ipv6OptionKind
  | 0 => pad1
  | 1 => padN
  | 4 => tunnelEncapsulationLimit
  | 5 => routerAlert
  | 7 => calipso
  | 8 => smfDpd
  | 15 => performanceDiagnosticMetrics
  | 18 => altMark
  | 35 => rpl
  | 38 => quickStart
  | 48 => minimumPathMtu
  | 109 => mpl
  | 138 => endpointIdentification
  | 139 => ilnpNonce
  | 140 => lineIdentification
  | 194 => jumboPayload
  | 201 => homeAddress
  | 238 => ipDff
  | value => unknown value

/-- `u8::from(Ipv6OptionKind)`. -/
def code : Ipv6OptionKind → ℕ
  | pad1 => 0
  | padN => 1
  | tunnelEncapsulationLimit => 4
  | routerAlert => 5
  | calipso => 7
  | smfDpd => 8
  | performanceDiagnosticMetrics => 15
  | altMark => 18
  | rpl => 35
  | quickStart => 38
  | minimumPathMtu => 48
  | mpl => 109
  | endpointIdentification => 138
  | ilnpNonce => 139
  | lineIdentification => 140
  | jumboPayload => 194
  | homeAddress => 201
  | ipDff => 238
  | unknown value => value

/-- A byte survives its typed form. -/
theorem code_ofCode (value : ℕ) : (ofCode value).code = value := by
  unfold ofCode
  split <;> rfl

end Ipv6OptionKind

/-- `SctpChunkType`. -/
inductive SctpChunkType where
  | data | init | initAck | sack | heartbeat | heartbeatAck | abort | shutdown | shutdownAck
  | error | cookieEcho | cookieAck | ecne | cwr | shutdownComplete | addressConfigurationChange
  | padding | forwardTsn | authentication
  | unknown (value : ℕ)
  deriving DecidableEq, Repr

namespace SctpChunkType

/-- `SctpChunkType::from(u8)`. -/
def ofCode : ℕ → SctpChunkType
  | 0 => data
  | 1 => init
  | 2 => initAck
  | 3 => sack
  | 4 => heartbeat
  | 5 => heartbeatAck
  | 6 => abort
  | 7 => shutdown
  | 8 => shutdownAck
  | 9 => error
  | 10 => cookieEcho
  | 11 => cookieAck
  | 12 => ecne
  | 13 => cwr
  | 14 => shutdownComplete
  | 193 => addressConfigurationChange
  | 132 => padding
  | 192 => forwardTsn
  | 15 => authentication
  | value => unknown value

/-- `u8::from(SctpChunkType)`. -/
def code : SctpChunkType → ℕ
  | data => 0
  | init => 1
  | initAck => 2
  | sack => 3
  | heartbeat => 4
  | heartbeatAck => 5
  | abort => 6
  | shutdown => 7
  | shutdownAck => 8
  | error => 9
  | cookieEcho => 10
  | cookieAck => 11
  | ecne => 12
  | cwr => 13
  | shutdownComplete => 14
  | addressConfigurationChange => 193
  | padding => 132
  | forwardTsn => 192
  | authentication => 15
  | unknown value => value

/-- A byte survives its typed form. -/
theorem code_ofCode (value : ℕ) : (ofCode value).code = value := by
  unfold ofCode
  split <;> rfl

end SctpChunkType

end Packet
end Maja
